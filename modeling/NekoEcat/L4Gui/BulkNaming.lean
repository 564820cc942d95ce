import NekoEcat.L4Gui.PlcHandoff
import NekoEcat.L4Gui.ProjectFile

/-!
# Bulk naming of I/O variables

`buildIoVariableBulkNamingPlan` gives the rows in scope an alias and tags. An
alias is made of the texts of a row and numbered until it is not used. The used
aliases are those of the rows that keep theirs, and those given before.

* `sharp_suggested`: a made alias starts with a letter, digit or `_` and does not
  end in a space, so trimming the others loses nothing.
* `naming_targets`: what the plan holds after all rows.
* `aliases_unique`: an alias that was given differs from every other that is
  stored then; the search for it ends.
-/
namespace NekoEcat.L4.BulkNaming
open NekoEcat.QNumber NekoEcat.QString NekoEcat.Strip NekoEcat.L4.PlcNames NekoEcat.L4.PlcHandoff
open NekoEcat.L4.ProjectFile (ioVariableTableObjectKey)

/-- mirrors apps/ecat-studio/models/IoVariableModel.h:24-30 -/
structure IoVariableBulkNamingOptions where
  prefixText : Text := []
  requestedTags : List Text := []
  includeAddress : Bool := true
  keepExistingAliases : Bool := true
  addDirectionTags : Bool := true

/-- mirrors apps/ecat-studio/models/IoVariableModel.h:32-37 -/
structure IoVariableBulkNamingResult where
  metadataUpdates : QHash String (List Text) := QHash.empty
  updated : Nat := 0
  skippedExistingAliases : Nat := 0
  skippedInvalidRows : Nat := 0

/-- mirrors apps/ecat-studio/models/ProcessDataRowModel.cpp:107-109 -/
def ioVariableTableRowHasTarget (row : IoVariableTableRow) : Bool :=
  row.positionValid && decide (0 ≤ row.position) && !row.index.isEmpty && !row.subIndex.isEmpty

/-- mirrors apps/ecat-studio/models/ProcessDataRowModel.cpp:225-230 -/
def ioVariableTableRowKey (row : IoVariableTableRow) : String :=
  if ioVariableTableRowHasTarget row then
    ioVariableTableObjectKey row.position (String.ofList row.index) (String.ofList row.subIndex)
  else ""

/-- `metadata.value(i)` of the entry of a key -/
def stored (metadataByKey : QHash String (List Text)) (key : String) : Text :=
  ((metadataByKey.value key).getD []).getD 0 []

/-- At least three texts. -/
def padded (metadata : List Text) : List Text := metadata ++ List.replicate (3 - metadata.length) []

def rowsByNumber (allRows : List IoVariableTableRow) : QHash Int IoVariableTableRow :=
  QHash.insertEach (fun row => some (row.row, row)) QHash.empty allRows

section
variable (u : Unicode)

/-- mirrors apps/ecat-studio/models/IoVariableModel.cpp:14-28 -/
def appendUniqueTag (tags : List Text) (tag : Text) : List Text :=
  let tag := trim tag
  if tag = [] then tags
  else if tags.any fun existing => u.same (trim existing) tag then tags
  else tags ++ [tag]

/-- mirrors apps/ecat-studio/models/IoVariableModel.cpp:351-353 -/
def ioVariableHandoffPlcType (row : IoVariableTableRow) : Text := ioVariableTableRowIecType u row

/-- The tags of a row, with those asked for. -/
def tagsText (options : IoVariableBulkNamingOptions) (row : IoVariableTableRow) (metadata : List Text) : Text :=
  let tags := ((metadata.getD 1 []).splitOn ',').filter (· ≠ [])
  let tags := options.requestedTags.foldl (appendUniqueTag u) tags
  let tags :=
    if options.addDirectionTags then
      appendUniqueTag u (appendUniqueTag u tags (lowered u (ioVariableHandoffPlcDirection u row)))
        (lowered u (ioVariableHandoffPlcType u row))
    else tags
  ", ".toList.intercalate tags

/-- The aliases of the rows that are not named anew. -/
def seededAliases (allRows : List IoVariableTableRow) (targetRows : List Int) (options : IoVariableBulkNamingOptions) :
    List Text :=
  allRows.filterMap fun row =>
    if row.row ∈ targetRows ∧ options.keepExistingAliases = false then none
    else if trim row.aliasText = [] then none
    else some (lowered u (trim row.aliasText))

/-- The used aliases and the plan, between two rows. -/
structure Naming where
  usedAliases : List Text
  result : IoVariableBulkNamingResult

def Naming.skip (s : Naming) : Naming :=
  { s with result := { s.result with skippedInvalidRows := s.result.skippedInvalidRows + 1 } }

/-- The alias of the row, numbered until it is not used. -/
def uniqueAlias (options : IoVariableBulkNamingOptions) (row : IoVariableTableRow) (usedAliases : List Text) : Text :=
  let baseAlias := suggestedIoVariableAlias u row options.prefixText options.includeAddress
  Fresh.first (lowered u) (withNumber baseAlias) usedAliases 2 baseAlias

/-- A row with a key. -/
def nameRow (metadataByKey : QHash String (List Text)) (options : IoVariableBulkNamingOptions) (row : IoVariableTableRow)
    (key : String) (s : Naming) : Naming :=
  let metadata := padded ((metadataByKey.value key).getD [])
  let tags := tagsText u options row metadata
  if options.keepExistingAliases = true ∧ trim (metadata.getD 0 []) ≠ [] then
    ⟨s.usedAliases,
      { s.result with
        metadataUpdates := s.result.metadataUpdates.insert key (metadata.set 1 tags)
        updated := s.result.updated + 1
        skippedExistingAliases := s.result.skippedExistingAliases + 1 }⟩
  else
    let name := uniqueAlias u options row s.usedAliases
    ⟨lowered u name :: s.usedAliases,
      { s.result with
        metadataUpdates := s.result.metadataUpdates.insert key ((metadata.set 0 name).set 1 tags)
        updated := s.result.updated + 1 }⟩

def nameTarget (allRows : List IoVariableTableRow) (metadataByKey : QHash String (List Text))
    (options : IoVariableBulkNamingOptions) (s : Naming) (rowNumber : Int) : Naming :=
  match (rowsByNumber allRows).value rowNumber with
  | none => s.skip
  | some row =>
    if ioVariableTableRowKey row = "" then s.skip
    else nameRow u metadataByKey options row (ioVariableTableRowKey row) s

/-- mirrors apps/ecat-studio/models/IoVariableModel.cpp:44-118 -/
def buildIoVariableBulkNamingPlan (allRows : List IoVariableTableRow) (targetRows : List Int)
    (metadataByKey : QHash String (List Text)) (options : IoVariableBulkNamingOptions) : IoVariableBulkNamingResult :=
  (targetRows.foldl (nameTarget u allRows metadataByKey options) ⟨seededAliases u allRows targetRows options, {}⟩).result

end

/-- mirrors apps/ecat-studio/workspaces/MainWindowIoVariableWorkspace.cpp:395-397 -/
def applied (plan : IoVariableBulkNamingResult) (metadataByKey : QHash String (List Text)) : QHash String (List Text) :=
  QHash.insertEach some metadataByKey plan.metadataUpdates.entries

/-! ## Made aliases -/

/-- Nothing of it is lost by trimming, and it holds something. -/
structure Sharp (text : Text) : Prop where
  head : ∃ c, text.head? = some c ∧ isWord c = true
  last : ∃ c, text.getLast? = some c ∧ isSpace c = false

section
variable {u : Unicode} {text other : Text}

theorem Sharp.of_tidy (h : Tidy text) : Sharp text := by
  obtain ⟨c, hc, -⟩ := h.head
  have hlast := List.getLast?_eq_some_getLast h.ne_nil
  exact ⟨⟨c, hc, h.word c (List.mem_of_mem_head? hc)⟩, _, hlast,
    not_isSpace_of_isWord (h.word _ (List.getLast_mem h.ne_nil))⟩

theorem Sharp.append (h : Sharp text) (hother : Sharp other) : Sharp (text ++ '_' :: other) := by
  obtain ⟨c, hc, hword⟩ := h.head
  obtain ⟨d, hd, hspace⟩ := hother.last
  refine ⟨⟨c, by rw [List.head?_append, hc]; rfl, hword⟩, d, ?_, hspace⟩
  rw [List.getLast?_append, List.getLast?_cons, hd]
  rfl

theorem sharp_address (row : IoVariableTableRow) : Sharp (trim (addressName row)) := by
  obtain ⟨cs, hcs⟩ := trim_addressName row
  have hne : trim (addressName row) ≠ [] := by simp [hcs]
  refine ⟨⟨'S', by rw [hcs]; rfl, isWord_S⟩, _, List.getLast?_eq_some_getLast hne, ?_⟩
  exact last_strip isSpace (List.getLast?_eq_some_getLast hne)

/-- A prefix of which nothing is left becomes `Var`. -/
theorem sharp_start (text : Text) : Sharp (plcIdentifier u text []) := by
  by_cases h : sanitized (given text []) = []
  · have hvar : plcIdentifier u text [] = "Var".toList := by
      have hdigit : u.isDigit 'V' = false := (u.isDigit_word 'V' (by decide)).trans (by decide)
      have htrim : trim ([] : Text) = [] := rfl
      simp [plcIdentifier_of_nil h, standIn, htrim, lettered, hdigit]
    rw [hvar]
    exact ⟨⟨'V', by simp, by decide⟩, 'r', by simp, by decide⟩
  · exact Sharp.of_tidy (plcIdentifier_of_ne h)

theorem sharp_suggested (row : IoVariableTableRow) (prefixText : Text) (includeAddress : Bool) :
    Sharp (suggestedIoVariableAlias u row prefixText includeAddress) := by
  have hseed : Sharp (plcIdentifier u (seed row) (addressName row)) := by
    rcases @plcIdentifier_address_cases u row (seed row) with htidy | heq
    · exact Sharp.of_tidy htidy
    · exact heq ▸ sharp_address row
  have haddress : Sharp (plcIdentifier u (addressName row) (addressName row)) := Sharp.of_tidy tidy_address
  have hwith : ∀ address name : Text, Sharp address → Sharp name →
      Sharp (if includeAddress = true then if (!u.contains name address) = true then address ++ '_' :: name else name
        else name) := by
    intro address name haddress hname
    split
    · split
      · exact haddress.append hname
      · exact hname
    · exact hname
  have hresult := hwith _ _ haddress hseed
  simp only [suggestedIoVariableAlias]
  generalize (if includeAddress = true then _ else _ : Text) = result at hresult ⊢
  by_cases hblank : trim prefixText = []
  · rw [if_pos hblank, if_neg (by simp)]
    exact hresult
  · rw [if_neg hblank]
    split
    · exact (sharp_start prefixText).append hresult
    · exact hresult

theorem sharp_withNumber (h : Sharp text) (n : Nat) : Sharp (withNumber text n) := by
  obtain ⟨c, hc, hword⟩ := h.head
  obtain ⟨d, hd, hdigit⟩ := suffixed_last (String.ofList text) n
  have hne : c ≠ '%' := fun heq => absurd (heq ▸ hword) (by decide)
  refine ⟨⟨c, suffixed_head (by simpa using hc) hne n, hword⟩, d, hd, not_isSpace_of_isWord ?_⟩
  simp [isWord, Char.isAlphanum, hdigit]

theorem Sharp.trim_eq (h : Sharp text) : trim text = text := by
  obtain ⟨c, hc, hword⟩ := h.head
  obtain ⟨d, hd, hspace⟩ := h.last
  rw [trim_eq_strip]
  refine strip_eq_self _ (fun c' hc' => ?_) fun d' hd' => ?_
  · rw [hc] at hc'
    exact Option.some.inj hc' ▸ not_isSpace_of_isWord hword
  · rw [hd] at hd'
    exact Option.some.inj hd' ▸ hspace

theorem lowered_trim (text : Text) : lowered u (trim text) = trim (lowered u text) := by
  rw [trim_eq_strip, trim_eq_strip]
  exact (strip_flatMap isSpace u.toLower_space u.toLower_ink text).symm

/-- What a made alias is like, is also so trimmed. -/
theorem Sharp.same_trimmed (h : Sharp text) (heq : lowered u text = lowered u other) :
    trim other ≠ [] ∧ lowered u text = lowered u (trim other) := by
  have htrim : lowered u text = lowered u (trim other) := by rw [lowered_trim, ← heq, ← lowered_trim, h.trim_eq]
  refine ⟨fun hnil => ?_, htrim⟩
  obtain ⟨c, hc, hword⟩ := h.head
  obtain ⟨cs, rfl⟩ := List.head?_eq_some_iff.1 hc
  have hempty : lowered u (c :: cs) = [] := by rw [htrim, hnil]; rfl
  rw [lowered, List.flatMap_cons, List.append_eq_nil_iff] at hempty
  exact (u.toLower_ink c (not_isSpace_of_isWord hword)).1 hempty.1

/-- **The alias of a row** is not used; the search for it ends. -/
theorem uniqueAlias_spec (options : IoVariableBulkNamingOptions) (row : IoVariableTableRow) (used : List Text) :
    lowered u (uniqueAlias u options row used) ∉ used ∧ Sharp (uniqueAlias u options row used) ∧
      ∃ fuel, Fresh.loop (lowered u)
        (withNumber (suggestedIoVariableAlias u row options.prefixText options.includeAddress)) used fuel 2
        (suggestedIoVariableAlias u row options.prefixText options.includeAddress) =
          some (uniqueAlias u options row used) := by
  have hsharp := @sharp_suggested u row options.prefixText options.includeAddress
  simp only [uniqueAlias]
  generalize suggestedIoVariableAlias u row options.prefixText options.includeAddress = base at hsharp ⊢
  obtain ⟨hfree, hcases, hfuel⟩ := @Fresh.first_spec _ _ _ (lowered u) (withNumber base) used
    (withNumber_injective base) 2 base
  refine ⟨hfree, ?_, _, hfuel _ (Nat.le_refl _)⟩
  rcases hcases with heq | ⟨n, -, heq⟩
  · rw [heq]
    exact hsharp
  · rw [heq]
    exact sharp_withNumber hsharp n

end

/-! ## The run over the rows -/

theorem padded_getD (metadata : List Text) (i : Nat) : (padded metadata).getD i [] = metadata.getD i [] := by
  rw [padded, List.getD_eq_getElem?_getD, List.getD_eq_getElem?_getD, List.getElem?_append]
  split
  · rfl
  · rename_i hle
    rw [List.getElem?_eq_none (l := metadata) (by omega), List.getElem?_replicate]
    split <;> rfl

theorem three_le_padded (metadata : List Text) : 3 ≤ (padded metadata).length := by
  rw [padded, List.length_append, List.length_replicate]
  omega

/-- The first text of an update. -/
theorem updated_first (metadata : List Text) (name tags : Text) :
    (((padded metadata).set 0 name).set 1 tags).getD 0 [] = name ∧ ((padded metadata).set 1 tags).getD 0 [] = metadata.getD 0 [] := by
  have hlength := three_le_padded metadata
  constructor
  · rw [List.getD_eq_getElem?_getD, List.getElem?_set_ne (by omega), List.getElem?_set_self (by omega)]
    rfl
  · rw [List.getD_eq_getElem?_getD, List.getElem?_set_ne (by omega), ← List.getD_eq_getElem?_getD, padded_getD]

/-- The alias of a key stays as it is: there is one, and such are kept. -/
def Kept (metadataByKey : QHash String (List Text)) (options : IoVariableBulkNamingOptions) (key : String) : Prop :=
  options.keepExistingAliases = true ∧ trim (stored metadataByKey key) ≠ []

/-- The plan gives the key an alias of its own. -/
def Assigned (metadataByKey : QHash String (List Text)) (options : IoVariableBulkNamingOptions)
    (plan : IoVariableBulkNamingResult) (key : String) : Prop :=
  plan.metadataUpdates.value key ≠ none ∧ ¬ Kept metadataByKey options key

section
variable (u : Unicode) (metadataByKey : QHash String (List Text)) (options : IoVariableBulkNamingOptions)
  (seeded : List Text)

/-- What holds between two rows. -/
structure Invariant (s : Naming) : Prop where
  used : ∀ k ∈ seeded, k ∈ s.usedAliases
  kept : ∀ key, Kept metadataByKey options key → s.result.metadataUpdates.value key ≠ none →
    stored s.result.metadataUpdates key = stored metadataByKey key
  given : ∀ key, Assigned metadataByKey options s.result key →
    Sharp (stored s.result.metadataUpdates key) ∧ lowered u (stored s.result.metadataUpdates key) ∈ s.usedAliases ∧
      lowered u (stored s.result.metadataUpdates key) ∉ seeded
  distinct : ∀ key key', Assigned metadataByKey options s.result key → Assigned metadataByKey options s.result key' →
    key ≠ key' → lowered u (stored s.result.metadataUpdates key) ≠ lowered u (stored s.result.metadataUpdates key')

end

section
variable {u : Unicode} {allRows : List IoVariableTableRow} {metadataByKey : QHash String (List Text)}
  {options : IoVariableBulkNamingOptions} {seeded : List Text} {s : Naming} {row : IoVariableTableRow} {key : String}

theorem stored_insert (h : QHash String (List Text)) (key key' : String) (metadata : List Text) :
    stored (h.insert key metadata) key' = if key' = key then metadata.getD 0 [] else stored h key' := by
  rw [stored, QHash.value_insert]
  split <;> rfl

theorem nameRow_kept (h : Kept metadataByKey options key) :
    (nameRow u metadataByKey options row key s).usedAliases = s.usedAliases ∧
      ∃ metadata, metadata.getD 0 [] = stored metadataByKey key ∧
        (nameRow u metadataByKey options row key s).result.metadataUpdates = s.result.metadataUpdates.insert key metadata := by
  have hcond : options.keepExistingAliases = true ∧ trim ((padded ((metadataByKey.value key).getD [])).getD 0 []) ≠ [] := by
    rw [padded_getD]
    exact h
  simp only [nameRow]
  rw [if_pos hcond]
  exact ⟨rfl, _, (updated_first _ [] _).2, rfl⟩

theorem nameRow_given (h : ¬ Kept metadataByKey options key) :
    (nameRow u metadataByKey options row key s).usedAliases = lowered u (uniqueAlias u options row s.usedAliases) :: s.usedAliases ∧
      ∃ metadata, metadata.getD 0 [] = uniqueAlias u options row s.usedAliases ∧
        (nameRow u metadataByKey options row key s).result.metadataUpdates = s.result.metadataUpdates.insert key metadata := by
  have hcond : ¬ (options.keepExistingAliases = true ∧ trim ((padded ((metadataByKey.value key).getD [])).getD 0 []) ≠ []) := by
    rw [padded_getD]
    exact h
  simp only [nameRow]
  rw [if_neg hcond]
  exact ⟨rfl, _, (updated_first _ _ _).1, rfl⟩

/-- A kept alias changes no other. -/
theorem Invariant.keep (h : Invariant u metadataByKey options seeded s) (hkept : Kept metadataByKey options key) :
    Invariant u metadataByKey options seeded (nameRow u metadataByKey options row key s) := by
  obtain ⟨hused, metadata, hfirst, hupdates⟩ := @nameRow_kept u _ _ s row _ hkept
  have hassigned : ∀ key', Assigned metadataByKey options (nameRow u metadataByKey options row key s).result key' →
      Assigned metadataByKey options s.result key' ∧ key' ≠ key := by
    intro key' ⟨hin, hnot⟩
    have hne : key' ≠ key := fun heq => hnot (heq ▸ hkept)
    rw [hupdates, QHash.value_insert, if_neg hne] at hin
    exact ⟨⟨hin, hnot⟩, hne⟩
  refine ⟨?_, ?_, ?_, ?_⟩
  · rw [hused]
    exact h.used
  · intro key' hkept' hin
    rw [hupdates, stored_insert]
    rw [hupdates, QHash.value_insert] at hin
    split
    · rename_i heq
      rw [hfirst, heq]
    · rename_i hne
      rw [if_neg hne] at hin
      exact h.kept key' hkept' hin
  · intro key' hkey'
    obtain ⟨hold, hne⟩ := hassigned key' hkey'
    rw [hupdates, stored_insert, if_neg hne, hused]
    exact h.given key' hold
  · intro key₁ key₂ h₁ h₂ hdiff
    obtain ⟨hold₁, hne₁⟩ := hassigned key₁ h₁
    obtain ⟨hold₂, hne₂⟩ := hassigned key₂ h₂
    rw [hupdates, stored_insert, stored_insert, if_neg hne₁, if_neg hne₂]
    exact h.distinct key₁ key₂ hold₁ hold₂ hdiff

/-- A given alias is not used before, and used from then on. -/
theorem Invariant.give (h : Invariant u metadataByKey options seeded s) (hnot : ¬ Kept metadataByKey options key) :
    Invariant u metadataByKey options seeded (nameRow u metadataByKey options row key s) := by
  obtain ⟨hused, metadata, hfirst, hupdates⟩ := @nameRow_given u _ _ s row _ hnot
  obtain ⟨hfree, hsharp, -⟩ := @uniqueAlias_spec u options row s.usedAliases
  generalize uniqueAlias u options row s.usedAliases = name at *
  have hassigned : ∀ key', key' ≠ key →
      Assigned metadataByKey options (nameRow u metadataByKey options row key s).result key' →
      Assigned metadataByKey options s.result key' := by
    intro key' hne ⟨hin, hnot'⟩
    rw [hupdates, QHash.value_insert, if_neg hne] at hin
    exact ⟨hin, hnot'⟩
  have hnew : ∀ key', key' ≠ key →
      Assigned metadataByKey options (nameRow u metadataByKey options row key s).result key' →
      lowered u name ≠ lowered u (stored s.result.metadataUpdates key') := by
    intro key' hne hkey' heq
    exact hfree (heq ▸ (h.given key' (hassigned key' hne hkey')).2.1)
  refine ⟨?_, ?_, ?_, ?_⟩
  · intro k hk
    rw [hused]
    exact List.mem_cons_of_mem _ (h.used k hk)
  · intro key' hkept' hin
    have hne : key' ≠ key := fun heq => hnot (heq ▸ hkept')
    rw [hupdates, stored_insert, if_neg hne]
    rw [hupdates, QHash.value_insert, if_neg hne] at hin
    exact h.kept key' hkept' hin
  · intro key' hkey'
    rw [hupdates, stored_insert, hused]
    split
    · rw [hfirst]
      exact ⟨hsharp, List.mem_cons_self, fun hmem => hfree (h.used _ hmem)⟩
    · rename_i hne
      obtain ⟨hsharp', hmem, hfree'⟩ := h.given key' (hassigned key' hne hkey')
      exact ⟨hsharp', List.mem_cons_of_mem _ hmem, hfree'⟩
  · intro key₁ key₂ h₁ h₂ hdiff
    rw [hupdates, stored_insert, stored_insert]
    by_cases hne₁ : key₁ = key
    · have hne₂ : key₂ ≠ key := fun heq => hdiff (hne₁.trans heq.symm)
      rw [if_pos hne₁, if_neg hne₂, hfirst]
      exact hnew key₂ hne₂ h₂
    · by_cases hne₂ : key₂ = key
      · rw [if_neg hne₁, if_pos hne₂, hfirst]
        exact (hnew key₁ hne₁ h₁).symm
      · rw [if_neg hne₁, if_neg hne₂]
        exact h.distinct key₁ key₂ (hassigned key₁ hne₁ h₁) (hassigned key₂ hne₂ h₂) hdiff

theorem nameRow_updates (key' : String) (h : key' = key ∨ s.result.metadataUpdates.value key' ≠ none) :
    (nameRow u metadataByKey options row key s).result.metadataUpdates.value key' ≠ none := by
  have hinsert : ∃ metadata, (nameRow u metadataByKey options row key s).result.metadataUpdates =
      s.result.metadataUpdates.insert key metadata := by
    by_cases hkept : Kept metadataByKey options key
    · obtain ⟨-, metadata, -, hupdates⟩ := @nameRow_kept u _ _ s row _ hkept
      exact ⟨metadata, hupdates⟩
    · obtain ⟨-, metadata, -, hupdates⟩ := @nameRow_given u _ _ s row _ hkept
      exact ⟨metadata, hupdates⟩
  obtain ⟨metadata, hupdates⟩ := hinsert
  rw [hupdates, QHash.value_insert]
  split
  · exact Option.some_ne_none _
  · rename_i hne
    exact h.resolve_left hne

/-- **What the plan holds after all rows.** -/
theorem naming_targets (targetRows : List Int) (h : Invariant u metadataByKey options seeded s) :
    Invariant u metadataByKey options seeded (targetRows.foldl (nameTarget u allRows metadataByKey options) s) ∧
      (∀ key, s.result.metadataUpdates.value key ≠ none →
        (targetRows.foldl (nameTarget u allRows metadataByKey options) s).result.metadataUpdates.value key ≠ none) ∧
      ∀ rowNumber ∈ targetRows, ∀ row, (rowsByNumber allRows).value rowNumber = some row → ioVariableTableRowKey row ≠ "" →
        (targetRows.foldl (nameTarget u allRows metadataByKey options) s).result.metadataUpdates.value
          (ioVariableTableRowKey row) ≠ none := by
  induction targetRows generalizing s with
  | nil => exact ⟨h, fun _ hin => hin, fun _ hmem => absurd hmem List.not_mem_nil⟩
  | cons rowNumber targetRows ih =>
    have hstep : Invariant u metadataByKey options seeded (nameTarget u allRows metadataByKey options s rowNumber) ∧
        (∀ key, s.result.metadataUpdates.value key ≠ none →
          (nameTarget u allRows metadataByKey options s rowNumber).result.metadataUpdates.value key ≠ none) ∧
        ∀ row, (rowsByNumber allRows).value rowNumber = some row → ioVariableTableRowKey row ≠ "" →
          (nameTarget u allRows metadataByKey options s rowNumber).result.metadataUpdates.value
            (ioVariableTableRowKey row) ≠ none := by
      cases hrow : (rowsByNumber allRows).value rowNumber with
      | none =>
        simp only [nameTarget, hrow]
        exact ⟨⟨h.used, h.kept, h.given, h.distinct⟩, fun _ hin => hin, fun _ hnone => by cases hnone⟩
      | some row =>
        simp only [nameTarget, hrow, Option.some.injEq]
        by_cases hkey : ioVariableTableRowKey row = ""
        · rw [if_pos hkey]
          exact ⟨⟨h.used, h.kept, h.given, h.distinct⟩, fun _ hin => hin, fun _ heq hne => absurd (heq ▸ hkey) hne⟩
        · rw [if_neg hkey]
          refine ⟨?_, fun key hin => nameRow_updates key (Or.inr hin), fun row' heq _ => ?_⟩
          · by_cases hkept : Kept metadataByKey options (ioVariableTableRowKey row)
            · exact h.keep hkept
            · exact h.give hkept
          · exact nameRow_updates _ (Or.inl (heq ▸ rfl))
    obtain ⟨hinv, hstay, hcover⟩ := hstep
    obtain ⟨hinv', hstay', hcover'⟩ := ih hinv
    refine ⟨hinv', fun key hin => hstay' key (hstay key hin), fun n hn row hrow hkey => ?_⟩
    rcases List.mem_cons.1 hn with rfl | hn
    · exact hstay' _ (hcover row hrow hkey)
    · exact hcover' n hn row hrow hkey

theorem stored_applied (plan : IoVariableBulkNamingResult) (key : String) :
    stored (applied plan metadataByKey) key =
      if plan.metadataUpdates.value key = none then stored metadataByKey key else stored plan.metadataUpdates key := by
  have hvalue : (applied plan metadataByKey).value key =
      (plan.metadataUpdates.value key).or (metadataByKey.value key) :=
    QHash.value_insertEach (fun _ _ => rfl) plan.metadataUpdates.nodup metadataByKey key
  rw [stored, hvalue]
  cases hplan : plan.metadataUpdates.value key with
  | none => rfl
  | some metadata => simp [stored, hplan]

theorem value_rowsByNumber (hrows : (allRows.map (·.row)).Nodup) (hmem : row ∈ allRows) :
    (rowsByNumber allRows).value row.row = some row := by
  have hentries : rowsByNumber allRows = QHash.insertEach some QHash.empty (allRows.map fun row => (row.row, row)) := by
    rw [rowsByNumber, QHash.insertEach_map]
  have hkeys : (Assoc.keys (allRows.map fun row => (row.row, row))).Nodup := by
    rwa [Assoc.keys, List.map_map]
  rw [hentries, QHash.value_insertEach (fun _ _ => rfl) hkeys,
    Assoc.lookup_of_mem hkeys (List.mem_map.2 ⟨row, hmem, rfl⟩), Option.some_or]

theorem mem_seededAliases {targetRows : List Int} (hmem : row ∈ allRows)
    (hscope : row.row ∈ targetRows → options.keepExistingAliases = true) (halias : trim row.aliasText ≠ []) :
    lowered u (trim row.aliasText) ∈ seededAliases u allRows targetRows options := by
  refine List.mem_filterMap.2 ⟨row, hmem, ?_⟩
  have hnot : ¬ (row.row ∈ targetRows ∧ options.keepExistingAliases = false) := by
    intro hboth
    rw [hscope hboth.1] at hboth
    cases hboth.2
  rw [if_neg hnot, if_neg halias]

/-- **A given alias** differs, without regard to case, from the one that every
other key of the rows has then; every search for one ends. -/
theorem aliases_unique (u : Unicode) (allRows : List IoVariableTableRow) (targetRows : List Int)
    (metadataByKey : QHash String (List Text)) (options : IoVariableBulkNamingOptions)
    (hrows : (allRows.map (·.row)).Nodup)
    (halias : ∀ row ∈ allRows, row.aliasText =
      if ioVariableTableRowKey row = "" then [] else stored metadataByKey (ioVariableTableRowKey row)) :
    (∀ key, Assigned metadataByKey options (buildIoVariableBulkNamingPlan u allRows targetRows metadataByKey options) key →
      ∀ row ∈ allRows, ioVariableTableRowKey row ≠ "" → ioVariableTableRowKey row ≠ key →
        lowered u (stored (applied (buildIoVariableBulkNamingPlan u allRows targetRows metadataByKey options) metadataByKey) key) ≠
          lowered u (stored (applied (buildIoVariableBulkNamingPlan u allRows targetRows metadataByKey options) metadataByKey)
            (ioVariableTableRowKey row))) ∧
      ∀ row usedAliases, ∃ fuel, Fresh.loop (lowered u)
        (withNumber (suggestedIoVariableAlias u row options.prefixText options.includeAddress)) usedAliases fuel 2
        (suggestedIoVariableAlias u row options.prefixText options.includeAddress) =
          some (uniqueAlias u options row usedAliases) := by
  refine ⟨?_, fun row used => (uniqueAlias_spec options row used).2.2⟩
  have hempty : ∀ key, ¬ Assigned metadataByKey options {} key := fun key h => h.1 rfl
  have hinit : Invariant u metadataByKey options (seededAliases u allRows targetRows options)
      ⟨seededAliases u allRows targetRows options, {}⟩ :=
    ⟨fun _ hk => hk, fun _ _ hin => absurd rfl hin, fun key h => absurd h (hempty key),
      fun key _ h => absurd h (hempty key)⟩
  obtain ⟨hinv, -, hcover⟩ := @naming_targets u allRows metadataByKey options _ _ targetRows hinit
  rw [buildIoVariableBulkNamingPlan]
  generalize targetRows.foldl (nameTarget u allRows metadataByKey options) _ = s at hinv hcover ⊢
  intro key hkey row hmem hne hdiff
  obtain ⟨hsharp, hin, hfree⟩ := hinv.given key hkey
  have hrow : row.aliasText = stored metadataByKey (ioVariableTableRowKey row) := by rw [halias row hmem, if_neg hne]
  rw [stored_applied, if_neg hkey.1, stored_applied]
  -- an alias that stays is trimmed before it is taken for used
  have hstays : (row.row ∈ targetRows → options.keepExistingAliases = true) →
      lowered u (stored s.result.metadataUpdates key) ≠ lowered u (stored metadataByKey (ioVariableTableRowKey row)) := by
    intro hscope heq
    obtain ⟨hblank, htrim⟩ := hsharp.same_trimmed heq
    rw [← hrow] at hblank htrim
    exact hfree (htrim ▸ mem_seededAliases hmem hscope hblank)
  split
  · rename_i hnone
    refine hstays fun htarget => absurd hnone ?_
    exact hcover row.row htarget row (value_rowsByNumber hrows hmem) hne
  · rename_i hupdated
    by_cases hkept : Kept metadataByKey options (ioVariableTableRowKey row)
    · rw [hinv.kept _ hkept hupdated]
      exact hstays fun _ => hkept.1
    · exact hinv.distinct key _ hkey ⟨hupdated, hkept⟩ (Ne.symm hdiff)

end

/-- A row with an alias, and one whose symbol is the same. -/
def rowPair : List IoVariableTableRow :=
  [{ row := 0, position := 1, positionValid := true, index := "0x6040".toList, subIndex := "0x00".toList,
      aliasText := "Ctrl".toList },
    { row := 1, position := 1, positionValid := true, index := "0x6041".toList, subIndex := "0x00".toList,
      symbol := "ctrl".toList }]

def pairMetadata : QHash String (List Text) := QHash.empty.insert "1|0x6040|0x00" ["Ctrl".toList]

theorem row_pair_named :
    lowered ascii (stored (applied (buildIoVariableBulkNamingPlan ascii rowPair [1] pairMetadata
        { includeAddress := false }) pairMetadata) "1|0x6041|0x00") ≠
      lowered ascii (stored (applied (buildIoVariableBulkNamingPlan ascii rowPair [1] pairMetadata
        { includeAddress := false }) pairMetadata) "1|0x6040|0x00") := by
  have hfirst : ioVariableTableRowKey rowPair[0] = "1|0x6040|0x00" := by decide
  have hassigned : Assigned pairMetadata { includeAddress := false }
      (buildIoVariableBulkNamingPlan ascii rowPair [1] pairMetadata { includeAddress := false }) "1|0x6041|0x00" := by
    refine ⟨?_, fun hkept => hkept.2 rfl⟩
    decide
  have hdiffers := (aliases_unique ascii rowPair [1] pairMetadata { includeAddress := false } (by decide) (by decide)).1 _
    hassigned rowPair[0] List.mem_cons_self (by rw [hfirst]; decide) (by rw [hfirst]; decide)
  rwa [hfirst] at hdiffers

end NekoEcat.L4.BulkNaming
