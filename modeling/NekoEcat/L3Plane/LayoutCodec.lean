import NekoEcat.Core.QJson
import NekoEcat.L2Daemon.FreeRunShm
import NekoEcat.L2Client.Layout

/-!
# The layout between daemon and client

`FreeRunController::shmInfo` encodes the runtime entries as a JSON object,
whose compact text the client's scanner decodes. The scanner has no notion of
strings, so what it makes of an entry depends on the braces and brackets in
the entries' names.

* `parseEntry_fields`: what the scanner reads from one entry's text, whatever
  follows it.
* `parseEntries_list`: the loop over the whole array.
* `layout_roundtrip`: the entries come back in order, with their addresses,
  lengths and offsets.
-/
namespace NekoEcat.L3.LayoutCodec
open NekoEcat.CScan NekoEcat.QJson NekoEcat.L1.Shm NekoEcat.L2.FreeRun NekoEcat.L2.Layout

/-- `static_cast<int>` -/
def castInt (u : UInt32) : Int := if u.toNat < 2 ^ 31 then u.toNat else (u.toNat : Int) - 2 ^ 32

/-- `static_cast<qint64>` -/
def castInt64 (u : UInt64) : Int := if u.toNat < 2 ^ 63 then u.toNat else (u.toNat : Int) - 2 ^ 64

/-- mirrors apps/ecatd/FreeRunController.cpp:391-400 -/
def entryObject (e : RuntimeEntry) : QJsonObject :=
  let entry : QJsonObject := insert "slave" (.int e.slavePosition.toNat) []
  let entry := insert "index" (.int e.index.toNat) entry
  let entry := insert "subindex" (.int e.subindex.toNat) entry
  let entry := insert "bitLength" (.int e.bitLength.toNat) entry
  let entry := insert "direction" (.string e.direction) entry
  let entry := insert "name" (.string e.name) entry
  match e.offset with
  | some offset => insert "offset" (.int (castInt offset)) entry
  | none => entry

/-- `hdr = none`: no mapping.
mirrors apps/ecatd/FreeRunController.cpp:381-405 -/
def shmInfo (hdr : Option ShmHeader) (runtimeEntries : List RuntimeEntry) : QJsonObject :=
  let info : QJsonObject := insert "shm_name" (.string kShmName) []
  let info :=
    match hdr with
    | some h =>
      let info := insert "data_size" (.int (castInt h.dataSize)) info
      let info := insert "layout_version" (.int (castInt h.layoutVersion)) info
      let info := insert "active_buffer" (.int (castInt h.activeBuffer)) info
      insert "version" (.int (castInt64 h.version)) info
    | none => info
  insert "layout" (.array (runtimeEntries.map fun e => .object (entryObject e))) info

/-- The compact text of the answer's object. -/
def shmInfoText (hdr : Option ShmHeader) (runtimeEntries : List RuntimeEntry) : List Char :=
  compact (.object (shmInfo hdr runtimeEntries))

/-! ## The encoder's texts -/

theorem entryObject_eq {e : RuntimeEntry} {offset : UInt32} (h : e.offset = some offset) :
    entryObject e =
      [("bitLength", .int e.bitLength.toNat), ("direction", .string e.direction),
        ("index", .int e.index.toNat), ("name", .string e.name), ("offset", .int (castInt offset)),
        ("slave", .int e.slavePosition.toNat), ("subindex", .int e.subindex.toNat)] := by
  unfold entryObject
  rw [h]
  rfl

theorem shmInfo_eq (h : ShmHeader) (rs : List RuntimeEntry) :
    shmInfo (some h) rs =
      [("active_buffer", .int (castInt h.activeBuffer)), ("data_size", .int (castInt h.dataSize)),
        ("layout", .array (rs.map fun e => .object (entryObject e))),
        ("layout_version", .int (castInt h.layoutVersion)), ("shm_name", .string kShmName),
        ("version", .int (castInt64 h.version))] := rfl

theorem castInt_range (u : UInt32) : -2 ^ 64 < castInt u ∧ castInt u < 2 ^ 64 := by
  have := u.toNat_lt
  unfold castInt
  split <;> omega

/-- Casting to `int` and reading back unsigned is the identity. -/
theorem castInt_mod (u : UInt32) : (castInt u % 2 ^ 32).toNat = u.toNat := by
  have := u.toNat_lt
  unfold castInt
  split <;> omega

/-! ## One entry -/

/-- A number field of an object of scalars, whatever follows the object. -/
theorem scanField_int {fs : QJsonObject} {k needle : String} {skip w : Nat} {n : Int} (rest : List Char)
    (hfs : ∀ f ∈ fs, isKey f.1 = true ∧ isScalar f.2 = true) (hk : isKey k = true)
    (hneedle : needle.toList = keyNeedle k) (hskip : (keyNeedle k).length = skip) (hw : w ≤ 64)
    (hn : -2 ^ 64 < n ∧ n < 2 ^ 64) (hl : fs.lookup k = some (.int n)) :
    scanField ('{' :: compactFields fs ++ rest) needle skip w = (n % 2 ^ w).toNat := by
  obtain ⟨c, rest', hc, hs⟩ := strstr_compactFields hk rest hfs hl
  unfold scanField
  rw [hneedle, List.cons_append, strstr_cons_skip (by simp [keyNeedle]), hs]
  dsimp only
  rw [List.append_assoc, ← hskip, List.drop_left, compact,
    scanUnsigned_intText hw hn.1 hn.2 (not_isDigit_of_isSep hc)]
  rfl

/-- What the two sides agree on. -/
structure Fields where
  slave : UInt16
  index : UInt16
  sub : UInt8
  bitLength : UInt8
  offset : UInt32
  deriving DecidableEq, Repr

def layoutFields (e : ShmLayoutEntry) : Fields := ⟨e.slave, e.index, e.sub, e.bitLength, e.offset⟩

def runtimeFields (e : RuntimeEntry) : Fields :=
  ⟨e.slavePosition, e.index, e.subindex, e.bitLength, e.offset.getD 0⟩

theorem entryObject_scalar {e : RuntimeEntry} {offset : UInt32} (h : e.offset = some offset) :
    ∀ f ∈ entryObject e, isKey f.1 = true ∧ isScalar f.2 = true := by
  rw [entryObject_eq h]
  simp only [List.forall_mem_cons, List.not_mem_nil, false_implies, implies_true, and_true, isScalar]
  decide

/-- **One entry.** From the entry's brace on the scanner reads that entry's
fields, whatever its name holds and whatever follows. -/
theorem parseEntry_fields {e : RuntimeEntry} (ho : e.offset.isSome = true) (hb : e.bitLength ≠ 0)
    (rest : List Char) :
    layoutFields (parseEntry ('{' :: compactFields (entryObject e) ++ rest)) = runtimeFields e := by
  obtain ⟨offset, h⟩ := Option.isSome_iff_exists.1 ho
  have hs := entryObject_scalar h
  have hfield : ∀ (k needle : String) (skip w : Nat) (n : Int), isKey k = true →
      needle.toList = keyNeedle k → (keyNeedle k).length = skip → w ≤ 64 →
      (-2 ^ 64 < n ∧ n < 2 ^ 64) → (entryObject e).lookup k = some (.int n) →
      scanField ('{' :: compactFields (entryObject e) ++ rest) needle skip w = (n % 2 ^ w).toNat :=
    fun k needle skip w n hk hn hsk hw hr hl => scanField_int rest hs hk hn hsk hw hr hl
  have hslave := hfield "slave" "\"slave\":" 8 16 e.slavePosition.toNat (by decide) (by decide)
    (by decide) (by decide) (by have := e.slavePosition.toNat_lt; omega) (by rw [entryObject_eq h]; rfl)
  have hindex := hfield "index" "\"index\":" 8 16 e.index.toNat (by decide) (by decide)
    (by decide) (by decide) (by have := e.index.toNat_lt; omega) (by rw [entryObject_eq h]; rfl)
  have hsub := hfield "subindex" "\"subindex\":" 11 8 e.subindex.toNat (by decide) (by decide)
    (by decide) (by decide) (by have := e.subindex.toNat_lt; omega) (by rw [entryObject_eq h]; rfl)
  have hbl := hfield "bitLength" "\"bitLength\":" 12 8 e.bitLength.toNat (by decide) (by decide)
    (by decide) (by decide) (by have := e.bitLength.toNat_lt; omega) (by rw [entryObject_eq h]; rfl)
  have hoff := hfield "offset" "\"offset\":" 9 32 (castInt offset) (by decide) (by decide)
    (by decide) (by decide) (castInt_range offset) (by rw [entryObject_eq h]; rfl)
  have h8 : ∀ u : UInt8, UInt8.ofNat (((u.toNat : Int) % 2 ^ 8).toNat) = u := by
    intro u
    have := u.toNat_lt
    have hmod : ((u.toNat : Int) % 2 ^ 8).toNat = u.toNat := by omega
    rw [hmod, UInt8.ofNat_toNat]
  have h16 : ∀ u : UInt16, UInt16.ofNat (((u.toNat : Int) % 2 ^ 16).toNat) = u := by
    intro u
    have := u.toNat_lt
    have hmod : ((u.toNat : Int) % 2 ^ 16).toNat = u.toNat := by omega
    rw [hmod, UInt16.ofNat_toNat]
  unfold layoutFields parseEntry runtimeFields
  dsimp only
  rw [hslave, hindex, hsub, hbl, hoff, castInt_mod, h8, h8, h16, h16, if_pos hb, h,
    UInt32.ofNat_toNat]
  rfl

/-! ## Braces and brackets -/

/-- `c` stands behind the first `}` of the name. -/
def followsBrace (c : Char) (name : String) : Bool := (name.toList.dropWhile (· != '}')).contains c

/-- A character the scanner's loop does not look for. -/
def plainChar (c : Char) : Bool := c != '{' && c != '}' && c != ']'

theorem not_mem_of_plain {s : List Char} (h : s.all plainChar = true) {c : Char}
    (hc : plainChar c = false) : c ∉ s := by
  intro hm
  rw [List.all_eq_true.1 h c hm] at hc
  cases hc

theorem intText_plain (n : Int) : (intText n).all plainChar = true := by
  rw [List.all_eq_true]
  intro c hc
  have h : ∀ x : Char, x ∈ intText n → x ≠ '{' ∧ x ≠ '}' ∧ x ≠ ']' := fun x hx => by
    refine ⟨?_, ?_, ?_⟩ <;> rintro rfl <;> exact absurd (mem_intText hx) (by decide)
  simp [plainChar, h c hc]

/-- The entry's text behind its brace: up to the name's characters, the
escaped name, and the rest up to the closing brace. -/
theorem compactFields_split {e : RuntimeEntry} {offset : UInt32} (h : e.offset = some offset)
    (hd : e.direction = "RxPDO" ∨ e.direction = "TxPDO") :
    ∃ pre post, compactFields (entryObject e) = pre ++ escape e.name.toList ++ post ++ ['}'] ∧
      pre.all plainChar = true ∧ post.all plainChar = true := by
  have hdir : (quoted e.direction.toList).all plainChar = true := by
    rcases hd with hd | hd <;> rw [hd] <;> decide
  refine ⟨"\"bitLength\":".toList ++ intText e.bitLength.toNat ++ ",\"direction\":".toList ++
      quoted e.direction.toList ++ ",\"index\":".toList ++ intText e.index.toNat ++ ",\"name\":\"".toList,
    "\",\"offset\":".toList ++ intText (castInt offset) ++ ",\"slave\":".toList ++
      intText e.slavePosition.toNat ++ ",\"subindex\":".toList ++ intText e.subindex.toNat,
    ?_, ?_, ?_⟩
  · rw [entryObject_eq h]
    simp [compactFields, compact, quoted, escape, escapeChar]
  · simp only [List.all_append, hdir, intText_plain]
    decide
  · simp only [List.all_append, intText_plain]
    decide

/-- A character behind the first `}` of a text, when the text is cut there. -/
theorem followsBrace_of_mem {name : String} {x y : List Char} {c : Char}
    (h : name.toList = x ++ '}' :: y) (hx : '}' ∉ x) (hc : c ∈ y) : followsBrace c name = true := by
  unfold followsBrace
  have hall : ∀ a ∈ x, (a != '}') = true := fun a ha => by
    simp only [bne_iff_ne, ne_eq]
    rintro rfl
    exact hx ha
  rw [h, List.dropWhile_append_of_pos hall, List.dropWhile_cons_of_neg (by simp)]
  simp [hc]

/-- **Where the scanner leaves an entry**: behind the first `}` of its text,
which is the entry's end or stands in its name; what is left of the entry
holds an opening brace or a closing bracket only if the name holds one behind
its first `}`. -/
theorem entry_close {e : RuntimeEntry} (ho : e.offset.isSome = true)
    (hd : e.direction = "RxPDO" ∨ e.direction = "TxPDO") (hopen : followsBrace '{' e.name = false) :
    ∃ b, '{' ∉ b ∧ (followsBrace ']' e.name = false → ']' ∉ b) ∧
      ∀ rest, strstr ['}'] ('{' :: compactFields (entryObject e) ++ rest) = some ('}' :: (b ++ rest)) := by
  obtain ⟨offset, h⟩ := Option.isSome_iff_exists.1 ho
  obtain ⟨pre, post, htext, hpre, hpost⟩ := compactFields_split h hd
  by_cases hname : '}' ∈ e.name.toList
  · obtain ⟨x, y, hxy, hx⟩ := List.eq_append_cons_of_mem hname
    have hesc : escape e.name.toList = escape x ++ '}' :: escape y := by
      rw [hxy, escape_append, escape_cons]; rfl
    have hb : ∀ c : Char, c = '{' ∨ c = ']' → followsBrace c e.name = false →
        c ∉ escape y ++ post ++ ['}'] := by
      intro c hc hf hm
      rw [List.mem_append, List.mem_append, List.mem_singleton] at hm
      rcases hm with (hm | hm) | hm
      · have hy : c ∈ y := mem_of_mem_escape (by rcases hc with rfl | rfl <;> decide) hm
        rw [followsBrace_of_mem hxy hx hy] at hf
        cases hf
      · exact not_mem_of_plain hpost (by rcases hc with rfl | rfl <;> rfl) hm
      · rcases hc with rfl | rfl <;> cases hm
    refine ⟨escape y ++ post ++ ['}'], hb _ (.inl rfl) hopen, hb _ (.inr rfl), ?_⟩
    intro rest
    have hsplit : '{' :: compactFields (entryObject e) ++ rest =
        ('{' :: pre ++ escape x) ++ '}' :: (escape y ++ post ++ ['}'] ++ rest) := by
      rw [htext, hesc]; simp
    rw [hsplit, strstr_char]
    simp only [List.cons_append, List.mem_cons, List.mem_append, not_or]
    exact ⟨by decide, not_mem_of_plain hpre rfl, fun hm => hx (mem_of_mem_escape (by decide) hm)⟩
  · refine ⟨[], List.not_mem_nil, fun _ => List.not_mem_nil, ?_⟩
    intro rest
    have hsplit : '{' :: compactFields (entryObject e) ++ rest =
        ('{' :: pre ++ escape e.name.toList ++ post) ++ '}' :: ([] ++ rest) := by
      rw [htext]; simp
    rw [hsplit, strstr_char]
    simp only [List.cons_append, List.mem_cons, List.mem_append, not_or]
    exact ⟨by decide, ⟨not_mem_of_plain hpre rfl,
      fun hm => hname (mem_of_mem_escape (by decide) hm)⟩, not_mem_of_plain hpost rfl⟩

/-- The next brace comes before the next bracket when neither stands before
it. -/
theorem before_of_not_mem {a t : List Char} (h1 : '{' ∉ a) (h2 : ']' ∉ a) :
    before (strstr ['{'] (a ++ '{' :: t)) (strstr [']'] (a ++ '{' :: t)) = true := by
  rw [strstr_char t h1, strstr_append _ h2]
  cases hq : strstr [']'] ('{' :: t) with
  | none => rfl
  | some q =>
    obtain ⟨hp, hs⟩ := strstr_some hq
    have hle := hs.length_le
    have hne : q.length ≠ ('{' :: t).length := by
      intro hl
      rw [hs.eq_of_length hl, List.cons_prefix_cons] at hp
      exact absurd hp.1 (by decide)
    have hlt : q.length < ('{' :: t).length := by omega
    exact decide_eq_true hlt

/-! ## The whole array -/

/-- The objects of the layout array. -/
def entryValues (rs : List RuntimeEntry) : List QJsonValue := rs.map fun e => .object (entryObject e)

/-- **The loop.** From before the array on the scanner stores one entry per
element, in order, and stops where no brace is left. -/
theorem parseEntries_list {rest : List Char} (hrest : '{' ∉ rest) : ∀ (rs : List RuntimeEntry) (fuel : Nat)
    (a : List Char), rs ≠ [] → rs.length ≤ fuel → '{' ∉ a →
    (∀ e ∈ rs, e.offset.isSome = true ∧ (e.direction = "RxPDO" ∨ e.direction = "TxPDO") ∧
      e.bitLength ≠ 0 ∧ followsBrace '{' e.name = false) →
    (∀ e ∈ rs.dropLast, followsBrace ']' e.name = false) →
    (parseEntries fuel (a ++ (compactList (entryValues rs) ++ rest))).1.map layoutFields =
        rs.map runtimeFields ∧
      '{' ∉ (parseEntries fuel (a ++ (compactList (entryValues rs) ++ rest))).2
  | [], _, _, h, _, _, _, _ => absurd rfl h
  | _ :: _, 0, _, _, h, _, _, _ => absurd h (Nat.not_succ_le_zero _)
  | [e], fuel + 1, a, _, _, ha, hok, _ => by
    obtain ⟨ho, hd, hb, hopen⟩ := hok e List.mem_cons_self
    obtain ⟨b, hb1, -, hclose⟩ := entry_close ho hd hopen
    have htext : compactList (entryValues [e]) ++ rest =
        '{' :: compactFields (entryObject e) ++ ']' :: rest := by
      simp [entryValues, compactList, compact]
    have hleft : '{' ∉ b ++ ']' :: rest := by
      simp only [List.mem_append, List.mem_cons, not_or]
      exact ⟨hb1, by decide, hrest⟩
    have hobj : strstr ['{'] (a ++ ('{' :: compactFields (entryObject e) ++ ']' :: rest)) =
        some ('{' :: compactFields (entryObject e) ++ ']' :: rest) := strstr_char _ ha
    rw [htext, parseEntries_round hobj (hclose _), strstr_char_eq_none hleft, if_neg (by simp [before])]
    exact ⟨congrArg (fun f => [f]) (parseEntry_fields ho hb _), hleft⟩
  | e :: e' :: rs, fuel + 1, a, _, hlen, ha, hok, hcl => by
    obtain ⟨ho, hd, hb, hopen⟩ := hok e List.mem_cons_self
    obtain ⟨b, hb1, hb2, hclose⟩ := entry_close ho hd hopen
    have hb2' := hb2 (hcl e (by simp))
    have htext : compactList (entryValues (e :: e' :: rs)) ++ rest =
        '{' :: compactFields (entryObject e) ++ ',' :: (compactList (entryValues (e' :: rs)) ++ rest) := by
      simp [entryValues, compactList, compact]
    obtain ⟨t, ht⟩ : ∃ t, compactList (entryValues (e' :: rs)) ++ rest = '{' :: t :=
      ⟨_, by rw [entryValues, List.map_cons, compactList_cons, compact]; rfl⟩
    have hcont : before (strstr ['{'] (b ++ ',' :: (compactList (entryValues (e' :: rs)) ++ rest)))
        (strstr [']'] (b ++ ',' :: (compactList (entryValues (e' :: rs)) ++ rest))) = true := by
      have := before_of_not_mem (a := b ++ [',']) (t := t) (by simpa using hb1) (by simpa using hb2')
      rw [List.append_assoc, List.singleton_append] at this
      rwa [ht]
    obtain ⟨ih1, ih2⟩ := parseEntries_list hrest (e' :: rs) fuel (b ++ [',']) (by simp)
      (Nat.le_of_succ_le_succ hlen) (by simpa using hb1)
      (fun x hx => hok x (List.mem_cons_of_mem _ hx))
      (fun x hx => hcl x (by rw [List.dropLast_cons_of_ne_nil (by simp)]; exact List.mem_cons_of_mem _ hx))
    rw [List.append_assoc, List.singleton_append] at ih1 ih2
    have hobj : strstr ['{'] (a ++ ('{' :: compactFields (entryObject e) ++
        ',' :: (compactList (entryValues (e' :: rs)) ++ rest))) =
        some ('{' :: compactFields (entryObject e) ++
          ',' :: (compactList (entryValues (e' :: rs)) ++ rest)) := strstr_char _ ha
    rw [htext, parseEntries_round hobj (hclose _), if_pos hcont]
    refine ⟨?_, ih2⟩
    rw [List.map_cons, List.map_cons, ih1, parseEntry_fields ho hb]

/-- What follows the layout array. -/
def infoRest (hdr : ShmHeader) : List Char :=
  ',' :: compactFields [("layout_version", .int (castInt hdr.layoutVersion)),
    ("shm_name", .string kShmName), ("version", .int (castInt64 hdr.version))]

theorem infoRest_no_brace (hdr : ShmHeader) : '{' ∉ infoRest hdr := by
  have hint : ∀ n : Int, '{' ∉ intText n := fun n h => absurd (mem_intText h) (by decide)
  have he : infoRest hdr = ",\"layout_version\":".toList ++ intText (castInt hdr.layoutVersion) ++
      ",\"shm_name\":\"/nekoecat_proc_0\",\"version\":".toList ++ intText (castInt64 hdr.version) ++
      ['}'] := by
    simp [infoRest, compactFields, compact, kShmName, quoted, escape, escapeChar]
  rw [he]
  simp only [List.mem_append, not_or]
  exact ⟨⟨⟨⟨by decide, hint _⟩, by decide⟩, hint _⟩, by decide⟩

/-- The daemon's text, up to the array. -/
theorem shmInfoText_eq (hdr : ShmHeader) (rs : List RuntimeEntry) :
    shmInfoText (some hdr) rs = '{' :: (quoted "active_buffer".toList ++ ':' ::
      (compact (.int (castInt hdr.activeBuffer)) ++ ',' :: (quoted "data_size".toList ++ ':' ::
        (compact (.int (castInt hdr.dataSize)) ++ ',' :: (quoted "layout".toList ++ ':' :: '[' ::
          (compactList (entryValues rs) ++ infoRest hdr)))))) := by
  rw [shmInfoText, shmInfo_eq]
  simp [compact, compactFields, infoRest, entryValues]

/-- The search for a key passes the fields of another key in front of it. -/
theorem strstr_infoField {k k' : String} (hk : isKey k = true) (hk' : isKey k' = true) (hne : k ≠ k')
    (n : Int) (rest : List Char) :
    strstr (keyNeedle k) (quoted k'.toList ++ ':' :: (compact (.int n) ++ ',' :: rest)) =
      strstr (keyNeedle k) rest := by
  rw [strstr_key_ne hk hk' hne, strstr_scalar hk rfl rfl, strstr_cons_skip (by simp [keyNeedle])]

theorem parse_dataSize (hdr : ShmHeader) (rs : List RuntimeEntry) :
    UInt32.ofNat (scanField (shmInfoText (some hdr) rs) "\"data_size\":" 12 32) = hdr.dataSize := by
  have hkey : "\"data_size\":".toList = keyNeedle "data_size" := by decide
  rw [scanField, shmInfoText_eq, hkey, strstr_cons_skip (by simp [keyNeedle]),
    strstr_infoField (by decide) (by decide) (by decide), strstr_key_self (by decide)]
  dsimp only
  rw [List.drop_left' (by decide), compact,
    scanUnsigned_intText (by decide) (castInt_range _).1 (castInt_range _).2 (by decide),
    Option.getD_some, castInt_mod, UInt32.ofNat_toNat]

theorem parse_layout (hdr : ShmHeader) (rs : List RuntimeEntry) :
    strstr "\"layout\":[".toList (shmInfoText (some hdr) rs) =
      some ("\"layout\":[".toList ++ (compactList (entryValues rs) ++ infoRest hdr)) := by
  have hkey : "\"layout\":[".toList = keyNeedle "layout" ++ ['['] := by decide
  rw [hkey]
  refine strstr_extend ?_ (List.prefix_append _ _)
  rw [shmInfoText_eq, strstr_cons_skip (by simp [keyNeedle]),
    strstr_infoField (by decide) (by decide) (by decide),
    strstr_infoField (by decide) (by decide) (by decide), strstr_key_self (by decide)]
  rfl

/-- **Layout round trip.** For at most 64 entries with their offsets, non-zero
bit lengths and names in which no opening brace, and except in the last no
closing bracket, stands behind a closing brace: the client's parse of the
daemon's text succeeds exactly when there is an entry, gives the daemon's data
size, is not truncated, and gives one entry per runtime entry, in order, with
its slave, index, subindex, bit length and offset. -/
theorem layout_roundtrip (hdr : ShmHeader) (rs : List RuntimeEntry) (hlen : rs.length ≤ layoutMaxEntries)
    (hok : ∀ e ∈ rs, e.offset.isSome = true ∧ (e.direction = "RxPDO" ∨ e.direction = "TxPDO") ∧
      e.bitLength ≠ 0 ∧ followsBrace '{' e.name = false)
    (hlast : ∀ e ∈ rs.dropLast, followsBrace ']' e.name = false) :
    let r := layoutParseFromShmInfoJson (shmInfoText (some hdr) rs)
    r.1 = !rs.isEmpty ∧ r.2.dataSize = hdr.dataSize ∧ r.2.truncated = false ∧
      r.2.entries.map layoutFields = rs.map runtimeFields := by
  have hrest := infoRest_no_brace hdr
  obtain ⟨hmap, hleft⟩ : (parseEntries layoutMaxEntries (compactList (entryValues rs) ++
        infoRest hdr)).1.map layoutFields = rs.map runtimeFields ∧
      '{' ∉ (parseEntries layoutMaxEntries (compactList (entryValues rs) ++ infoRest hdr)).2 := by
    by_cases he : rs = []
    · subst he
      have hno : '{' ∉ compactList (entryValues []) ++ infoRest hdr := by
        simpa [entryValues, compactList] using hrest
      have hp : parseEntries layoutMaxEntries (compactList (entryValues []) ++ infoRest hdr) =
          ([], compactList (entryValues []) ++ infoRest hdr) := by
        rw [layoutMaxEntries, parseEntries, strstr_char_eq_none hno]
      rw [hp]
      exact ⟨rfl, hno⟩
    · exact parseEntries_list hrest rs _ [] he hlen List.not_mem_nil hok hlast
  have hcount := congrArg List.length hmap
  rw [List.length_map, List.length_map] at hcount
  have htrunc : ∀ q, before (strstr ['{'] (parseEntries layoutMaxEntries
      (compactList (entryValues rs) ++ infoRest hdr)).2) q = false := fun q => by
    rw [strstr_char_eq_none hleft]; rfl
  unfold layoutParseFromShmInfoJson
  rw [parse_layout]
  dsimp only
  rw [parse_dataSize, List.drop_left' (by decide)]
  refine ⟨?_, rfl, ?_, hmap⟩
  · rw [hcount]
    cases rs <;> simp
  · rw [htrunc, Bool.and_false]

def driveHeader : ShmHeader := ⟨9, 9, 0, 1, 4, layoutVersion, flagRunning, 0⟩

/-- A drive's two entries; the last name holds a brace and a bracket. -/
def driveEntries : List RuntimeEntry :=
  [⟨0, 3, "TxPDO", 0x1A00, 0x6041, 0, 16, "Status \"word\"", some 0, some 0⟩,
    ⟨1, 2, "RxPDO", 0x1600, 0x6040, 0, 16, "Control \x7bword\x7d]", some 2, some 0⟩]

theorem layout_roundtrip_drive :
    (layoutParseFromShmInfoJson (shmInfoText (some driveHeader) driveEntries)).2.entries.map layoutFields =
      [⟨0, 0x6041, 0, 16, 0⟩, ⟨1, 0x6040, 0, 16, 2⟩] :=
  (layout_roundtrip driveHeader driveEntries (by decide) (by decide) (by decide)).2.2.2

/-- An entry of bit length 0, as a padding object has. -/
def zeroLengthEntry : RuntimeEntry := ⟨0, 3, "TxPDO", 0x1A00, 0x6041, 0, 0, "Gap", some 0, some 0⟩

/-- An entry whose name holds a closing and then an opening brace. -/
def bracedEntry : RuntimeEntry := ⟨0, 3, "TxPDO", 0x1A00, 0x6041, 0, 16, "a\x7d\x7bb", some 0, some 0⟩

/-- **What the scanner does not carry over**: a bit length of 0 comes back as
its default 16, and a name with `}` before `{` adds an entry. -/
theorem scanner_limits :
    (layoutParseFromShmInfoJson (shmInfoText (some driveHeader) [zeroLengthEntry])).2.entries.map
        layoutFields = [⟨0, 0x6041, 0, 16, 0⟩] ∧
    (layoutParseFromShmInfoJson (shmInfoText (some driveHeader) [bracedEntry])).2.entries.length = 2 := by
  decide +kernel

end NekoEcat.L3.LayoutCodec
