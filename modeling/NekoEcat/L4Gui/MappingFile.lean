import NekoEcat.L4Gui.MappingStore

/-!
# The file of PDO mappings

`exportMapping` writes the list of a slave as a JSON object, `importMapping`
reads it back. Both the import and a layout fill a list of their own, mapping by
mapping, and assign it to the slave only behind the last; here they run on the
service together with the signals it has emitted.

* `readMapping_mappingObject`: an exported mapping reads back as it was.
* `importFile_eq`, `applyLayout_eq`: what runs on the service is what the store
  is described with.
* `roundTrip_and_rejection`: what is exported is restored, what is rejected
  changes nothing and tells nothing.
-/
namespace NekoEcat.L4.MappingStore
open NekoEcat.QJson NekoEcat.QString NekoEcat.QNumber NekoEcat.Trace

/-! ## Export -/

/-- The object of one mapping. -/
def mappingObject (m : PdoMapping) : QJsonObject :=
  ofList [("index", .string m.index), ("subIndex", .string m.subIndex), ("name", .string m.name),
    ("dataType", .string m.dataType), ("bitSize", .int m.bitSize),
    ("direction", .string (if m.direction = .output then "output" else "input")), ("enabled", .bool m.enabled)]

/-- The object of the file, if one is written.
mirrors apps/ecat-studio/services/PdoMappingService.cpp:109-142 -/
def exportMapping (s : PdoMappingService) (position : Int) (filePath : String) : Option QJsonObject :=
  if !isValidPosition position || filePath.isEmpty then none
  else
    (s.mappings.value position).map fun ms =>
      ofList [("position", .int position), ("mappings", .array (ms.map fun m => .object (mappingObject m)))]

/-- What an import makes of a mapping of the slave. -/
theorem readMapping_mappingObject {position : Int} {m : PdoMapping} (hplace : m.slavePosition = position)
    (hcheck : mappingError m = none) : readMapping position (mappingObject m) = m := by
  have hpos := bitSize_pos hcheck
  have hmax : m.bitSize ≤ maxBitSize := by grind [mappingError]
  have hint : -2147483648 ≤ m.bitSize ∧ m.bitSize < 2147483648 := by
    unfold maxBitSize at hmax
    omega
  have hdir : (if m.direction = .output then PdoDirection.output else .input) = m.direction := by
    cases m.direction <;> simp
  subst hplace
  simp only [readMapping, mappingObject, ofList, List.foldl_cons, List.foldl_nil, value_insert]
  simp [toStringD, toIntD, hint, hdir]

/-! ## Signals -/

inductive Signal where
  | mappingChanged (position : Int) (mapping : PdoMapping)
  | mappingLayoutChanged (position : Int) (layout : MappingLayout)
  | error (message : String)

/-- The signals that tell of a change. -/
def Signal.IsChange : Signal → Prop
  | .error _ => False
  | _ => True

/-- The service, and what it has emitted. -/
structure Sender where
  service : PdoMappingService
  emitted : List Signal

def emit (signal : Signal) : StateM Sender Unit := modify fun S => { S with emitted := S.emitted ++ [signal] }

/-- `mappings_[position] = ms` -/
def assign (position : Int) (ms : List PdoMapping) : StateM Sender Unit :=
  modify fun S => { S with service := store S.service position ms }

/-- A mapping is checked; the error of a bad one is emitted. -/
def passes (m : PdoMapping) : StateM Sender Bool := do
  let vr := validateMapping (← get).service m
  if !vr.valid then
    emit (.error vr.errorMessage)
  return vr.valid

/-- The loop of the import: what it has appended so far is `imported`. -/
def importLoop (position : Int) : List QJsonValue → List PdoMapping → StateM Sender (Option (List PdoMapping))
  | [], imported => return some imported
  | .object obj :: vs, imported => do
    if ← passes (readMapping position obj) then
      importLoop position vs (imported ++ [readMapping position obj])
    else
      return none
  | _ :: _, _ => return none

/-- mirrors apps/ecat-studio/services/PdoMappingService.cpp:144-188 -/
def importFile (position : Int) (filePath : String) (doc : Option QJsonValue) : StateM Sender Bool := do
  if !isValidPosition position || filePath.isEmpty then
    return false
  match fileMappings doc with
  | none => return false
  | some arr =>
    match ← importLoop position arr [] with
    | none => return false
    | some imported =>
      assign position imported
      return true

/-- The loops of a layout: what they have appended so far is `newMappings`. -/
def applyLoop : List PdoMapping → List PdoMapping → StateM Sender (Option (List PdoMapping))
  | [], newMappings => return some newMappings
  | m :: ms, newMappings => do
    if ← passes m then
      applyLoop ms (newMappings ++ [m])
    else
      return none

/-- mirrors apps/ecat-studio/services/PdoMappingService.cpp:248-284 -/
def applyLayout (position : Int) (layout : MappingLayout) : StateM Sender Bool := do
  if !isValidPosition position then
    emit (.error (arg "Invalid slave position: %1" (number position)))
    return false
  let vr := validateMappingLayout layout
  if !vr.valid then
    emit (.error vr.errorMessage)
    return false
  match ← applyLoop (layoutMappings position layout) [] with
  | none => return false
  | some newMappings =>
    assign position newMappings
    emit (.mappingLayoutChanged position layout)
    return true

/-! ## The operations on the service -/

/-- What a refusal leaves: the list as it was, and the error if it reports one. -/
def refuse (S : Sender) : Option String → Sender
  | some message => { S with emitted := S.emitted ++ [.error message] }
  | none => S

/-- What a loop comes to, by what the store says of it. -/
def settleLoop (S : Sender) (imported : List PdoMapping) :
    Except (Option String) (List PdoMapping) → Option (List PdoMapping) × Sender
  | .ok ms => (some (imported ++ ms), S)
  | .error message => (none, refuse S message)

/-- What an operation comes to. -/
def settle (signals : List Signal) (S : Sender) : Result → Bool × Sender
  | .ok s' => (true, ⟨s', S.emitted ++ signals⟩)
  | .error message => (false, refuse S message)

section
variable (S : Sender) (position : Int)

theorem passes_eq (m : PdoMapping) :
    passes m S = ((validateMapping S.service m).valid,
      if (validateMapping S.service m).valid then S else refuse S (validateMapping S.service m).errorMessage) := by
  have hpure {α : Type} (a : α) (s : Sender) : (pure a : StateM Sender α) s = (a, s) := rfl
  have hid {α : Type} (a : α) : (pure a : Id α) = a := rfl
  cases hv : (validateMapping S.service m).valid <;> simp [passes, hv, refuse, emit, bind, StateT.bind, get, getThe,
    MonadStateOf.get, StateT.get, hpure, hid, modify, modifyGet, MonadStateOf.modifyGet, StateT.modifyGet]

theorem settleLoop_cons (imported : List PdoMapping) (m : PdoMapping) (x : Except (Option String) (List PdoMapping)) :
    settleLoop S (imported ++ [m]) x = settleLoop S imported (x.map (m :: ·)) := by
  cases x <;> simp [settleLoop, Except.map]

/-- One turn of a loop: the mapping is appended, or the loop ends. -/
theorem turn_eq (m : PdoMapping) (next : StateM Sender (Option (List PdoMapping))) :
    (passes m >>= fun ok => if ok = true then next else pure none) S =
      if (validateMapping S.service m).valid then next S
      else (none, refuse S (validateMapping S.service m).errorMessage) := by
  change (if (passes m S).1 = true then next else pure none) (passes m S).2 = _
  rw [passes_eq]
  cases (validateMapping S.service m).valid <;> rfl

theorem importLoop_eq (vs : List QJsonValue) (imported : List PdoMapping) :
    importLoop position vs imported S = settleLoop S imported (readEach S.service position vs) := by
  induction vs generalizing imported with
  | nil =>
    rw [importLoop, readEach, settleLoop, List.append_nil]
    rfl
  | cons v vs ih =>
    cases v with
    | object obj =>
      have hturn := turn_eq S (readMapping position obj) (importLoop position vs (imported ++ [readMapping position obj]))
      refine hturn.trans ?_
      cases hv : (validateMapping S.service (readMapping position obj)).valid with
      | false => simp [readEach, hv, settleLoop]
      | true =>
        have hstep : readEach S.service position (.object obj :: vs) =
            (readEach S.service position vs).map (readMapping position obj :: ·) := by
          simp only [readEach, hv, Bool.not_true, Bool.false_eq_true, if_false]
          rfl
        rw [if_pos rfl, ih, hstep, settleLoop_cons]
    | _ => rfl

theorem applyLoop_eq (ms newMappings : List PdoMapping) :
    applyLoop ms newMappings S = settleLoop S newMappings (checkEach S.service ms) := by
  induction ms generalizing newMappings with
  | nil =>
    rw [applyLoop, checkEach, settleLoop, List.append_nil]
    rfl
  | cons m ms ih =>
    refine (turn_eq S m (applyLoop ms (newMappings ++ [m]))).trans ?_
    cases hv : (validateMapping S.service m).valid with
    | false => simp [checkEach, hv, settleLoop]
    | true =>
      have hstep : checkEach S.service (m :: ms) = (checkEach S.service ms).map (m :: ·) := by
        simp only [checkEach, hv, Bool.not_true, Bool.false_eq_true, if_false]
        rfl
      rw [if_pos rfl, ih, hstep, settleLoop_cons]

/-- **An import** runs as the store describes it. -/
theorem importFile_eq (filePath : String) (doc : Option QJsonValue) :
    importFile position filePath doc S = settle [] S (importMapping S.service position filePath doc) := by
  unfold importFile importMapping
  cases hgiven : !isValidPosition position || filePath.isEmpty with
  | true => rfl
  | false =>
    cases harr : fileMappings doc with
    | none => rfl
    | some arr =>
      simp only [Bool.false_eq_true, if_false]
      simp only [bind, StateT.bind, importLoop_eq]
      cases readEach S.service position arr with
      | error message => rfl
      | ok ms =>
        change (true, (⟨store S.service position ms, S.emitted⟩ : Sender)) = (true, ⟨_, S.emitted ++ []⟩)
        rw [List.append_nil]

/-- **A layout** is taken over as the store describes it. -/
theorem applyLayout_eq (layout : MappingLayout) :
    applyLayout position layout S =
      settle [.mappingLayoutChanged position layout] S (applyMappingLayout S.service position layout) := by
  unfold applyLayout applyMappingLayout
  cases hgiven : !isValidPosition position with
  | true => rfl
  | false =>
    cases hvalid : !(validateMappingLayout layout).valid with
    | true =>
      simp only [hvalid, Bool.false_eq_true, if_false, if_true]
      rfl
    | false =>
      simp only [hvalid, Bool.false_eq_true, if_false]
      simp only [bind, StateT.bind, applyLoop_eq]
      cases checkEach S.service (layoutMappings position layout) with
      | error message => rfl
      | ok ms => rfl

end

/-! ## The round trip -/

/-- Every mapping is stored for its slave. -/
def Placed (s : PdoMappingService) : Prop := ∀ position, ∀ m ∈ currentMappings s position, m.slavePosition = position

section
variable {s : PdoMappingService}

theorem placed_step {op : Op} (h : Placed s) : Placed (step s op) := by
  by_cases hacc : op.Accepted
  · intro p m hm
    rw [step_accepted hacc, currentMappings_store] at hm
    split at hm
    · rename_i hp
      subst hp
      cases op with
      | configure position mapping =>
        rcases mem_upsert hm with rfl | hm
        · exact hacc.2.1
        · exact h position m hm
      | importFile position filePath doc =>
        obtain ⟨v, -, rfl⟩ := List.mem_map.1 hm
        rfl
      | apply position layout =>
        obtain ⟨sm, -, hm⟩ := List.mem_flatMap.1 hm
        obtain ⟨entry, -, rfl⟩ := List.mem_map.1 hm
        rfl
    · exact h p m hm
  · rw [step_refused hacc]
    exact h

/-- What a run keeps of the single mappings. -/
theorem sound_exec (ops : List Op) : Checked (exec step started ops) ∧ Placed (exec step started ops) := by
  have hstart : Checked started ∧ Placed started := by
    constructor <;> intro position m hm <;> cases hm
  refine foldl_inv_guarded step (I := fun s => Checked s ∧ Placed s) (G := fun _ _ => True) ?_ ops hstart
    (along_of_forall step (fun _ _ => trivial) started ops)
  intro s op h _
  exact ⟨checked_step h.1, placed_step h.2⟩

/-- **An export reads back**, on a service in any state. -/
theorem importMapping_export {position : Int} {filePath : String} {doc : QJsonObject} (hc : Checked s) (hp : Placed s)
    (h : exportMapping s position filePath = some doc) (s' : PdoMappingService) :
    importMapping s' position filePath (some (.object doc)) = .ok (store s' position (currentMappings s position)) := by
  unfold exportMapping at h
  split at h
  · cases h
  · rename_i hgiven
    obtain ⟨ms, hms, hdoc⟩ := Option.map_eq_some_iff.1 h
    have hcurrent : currentMappings s position = ms := by simp [currentMappings, hms]
    have hback : ∀ m ∈ ms, readMapping position (mappingObject m) = m := fun m hm =>
      readMapping_mappingObject (hp position m (hcurrent ▸ hm)) (hc position m (hcurrent ▸ hm))
    let op := Op.importFile position filePath (some (.object doc))
    have harr : fileMappings (some (.object doc)) = some (ms.map fun m => .object (mappingObject m)) := by
      simp [← hdoc, fileMappings, ofList, value_insert]
    have hbrought : op.brought = ms := by
      change ((fileMappings (some (.object doc))).getD []).map (fun v => readMapping position (toObject v)) = ms
      rw [harr, Option.getD_some, List.map_map]
      refine (List.map_congr_left fun m hm => ?_).trans (List.map_id ms)
      rw [Function.comp_apply, toObject]
      exact hback m hm
    have hgiven' : 0 ≤ position ∧ filePath ≠ "" := by
      simpa [isValidPosition] using hgiven
    have hacc : op.Accepted := by
      refine ⟨hgiven'.1, ⟨hgiven'.2, _, harr, fun v hv => ?_⟩, fun m hm => ?_⟩
      · obtain ⟨m, -, rfl⟩ := List.mem_map.1 hv
        exact ⟨mappingObject m, rfl⟩
      · rw [hbrought, ← hcurrent] at hm
        exact hc position m hm
    have hrun := (run_eq_ok s').2 ⟨hacc, rfl⟩
    rw [hcurrent, ← hbrought]
    exact hrun

end

/-- Nothing has changed, and no change was told of. -/
structure Unchanged (S S' : Sender) : Prop where
  service : S'.service = S.service
  signals : ∃ told, S'.emitted = S.emitted ++ told ∧ ∀ signal ∈ told, ¬ signal.IsChange

theorem unchanged_of_settle {signals : List Signal} {S : Sender} {r : Result} (h : (settle signals S r).1 = false) :
    Unchanged S (settle signals S r).2 := by
  cases r with
  | ok s' => cases h
  | error message =>
    cases message with
    | none => exact ⟨rfl, [], (List.append_nil _).symm, fun signal hs => by simp at hs⟩
    | some message =>
      refine ⟨rfl, [.error message], rfl, fun signal hs => ?_⟩
      rw [List.mem_singleton.1 hs]
      exact id

/-- **Export and import.** In every state of a run: the object that is exported for
a slave restores its list, also on another service; what an import or a layout is
refused for leaves the service as it was. -/
theorem roundTrip_and_rejection (ops : List Op) (position : Int) (S : Sender) :
    (∀ filePath doc, exportMapping (exec step started ops) position filePath = some doc →
      importFile position filePath (some (.object doc)) S =
        (true, { S with service := store S.service position (currentMappings (exec step started ops) position) })) ∧
    (∀ filePath doc, (importFile position filePath doc S).1 = false → Unchanged S (importFile position filePath doc S).2) ∧
    ∀ layout, (applyLayout position layout S).1 = false → Unchanged S (applyLayout position layout S).2 := by
  refine ⟨fun filePath doc h => ?_, fun filePath doc h => ?_, fun layout h => ?_⟩
  · obtain ⟨hc, hp⟩ := sound_exec ops
    rw [importFile_eq, importMapping_export hc hp h]
    change (true, (⟨_, S.emitted ++ []⟩ : Sender)) = _
    rw [List.append_nil]
  · rw [importFile_eq] at h ⊢
    exact unchanged_of_settle h
  · rw [applyLayout_eq] at h ⊢
    exact unchanged_of_settle h

/-- One mapping is configured, exported and imported; no file, and a layout for no
slave, are refused. -/
theorem one_mapping_restored :
    importFile 0 "map.json" (some (.object (ofList [("position", .int 0),
      ("mappings", .array [.object (mappingObject twiceMapping)])]))) ⟨started, []⟩ =
        (true, ⟨store started 0 [twiceMapping], []⟩) ∧
      Unchanged ⟨started, []⟩ (importFile 0 "map.json" none ⟨started, []⟩).2 ∧
      Unchanged ⟨started, []⟩ (applyLayout (-1) ⟨[], 0⟩ ⟨started, []⟩).2 := by
  have hacc : (Op.configure 0 twiceMapping).Accepted := by
    refine ⟨Int.le_refl 0, rfl, fun m hm => ?_⟩
    rw [List.mem_singleton.1 hm]
    exact twiceMapping_checked
  have hstate : exec step started [.configure 0 twiceMapping] = store started 0 [twiceMapping] := by
    rw [exec, List.foldl_cons, List.foldl_nil, step_accepted hacc]
    rfl
  obtain ⟨hround, himport, hlayout⟩ := roundTrip_and_rejection [.configure 0 twiceMapping] 0 ⟨started, []⟩
  rw [hstate] at hround
  exact ⟨hround "map.json" _ rfl, himport "map.json" none rfl,
    (roundTrip_and_rejection [] (-1) ⟨started, []⟩).2.2 ⟨[], 0⟩ rfl⟩

end NekoEcat.L4.MappingStore
