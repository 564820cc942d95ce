import NekoEcat.L2Daemon.NativeSdo
import NekoEcat.L4Gui.Rpc

/-!
# The verdict on an SDO write

A write is read back and the two texts are compared: the user's, and what
`EthercatNativeBackend::upload` makes of the bytes. The request for the upload
has no type, so that is always a dump of the bytes.

* `readBack_iff`: which texts are the dump of what they write.
* `verdict_iff`: the verdict is right for these, and for no others.
-/
namespace NekoEcat.L4.SdoReadBack
open NekoEcat.Bytes NekoEcat.QJson NekoEcat.QNumber NekoEcat.QString NekoEcat.L2.NativeSdo NekoEcat.L4.EcatClient

/-! ## The handlers of the daemon -/

/-- mirrors apps/ecatd/EcatDaemon.cpp:15-20 -/
def subIndexFromJson (obj : QJsonObject) : QJsonValue :=
  let v := value obj "subIndex"
  if toStringD v "" = "" then value obj "subindex" else v

def param (params : QJsonObject) (key : String) : List Char := (toStringD (value params key) "").toList

/-- The `"value"` of the answer.
mirrors apps/ecatd/EcatDaemon.cpp:227-234 -/
def uploadHandler (bus : Bus) (params : QJsonObject) : Except String (List Char) :=
  upload bus (param params "index") (toStringD (subIndexFromJson params) "").toList (param params "type")

/-- mirrors apps/ecatd/EcatDaemon.cpp:236-243 -/
def downloadHandler (bus : Bus) (params : QJsonObject) : Option Transfer × Except String Unit :=
  download bus (toIntD (value params "position") 0) (param params "index")
    (toStringD (subIndexFromJson params) "").toList (param params "value") (param params "type")

/-- The parameters of a request as they are sent. -/
def sent (target : String) (r : Rpc) : QJsonObject := insert "master" (.string target) r.params

/-! ## The verdict -/

inductive Verdict where
  | ok
  | failed
  deriving DecidableEq, Repr

/-- mirrors apps/ecat-studio/workspaces/MainWindowSdoWorkspace.cpp:451 -/
def normalize (text : List Char) : List Char := lower ((trim text).filter fun c => c ≠ ' ')

/-- mirrors apps/ecat-studio/workspaces/MainWindowSdoWorkspace.cpp:450-461 -/
def verify (expected value : List Char) : Verdict :=
  if normalize expected = normalize value then .ok else .failed

/-- The bytes an upload returns. -/
def returned (bus : Bus) : Bytes := bus.data.take maxSdoDataSize

/-- A text that is the dump of the bytes it writes. An integer is one only if
its decimal digits happen to be: below ten with one zero in front for one byte,
all zeros for two or four. A string would have to be as long as its dump. -/
def ReadsBack (value : List Char) : SdoType → Prop
  | .unsigned bits | .signed bits =>
    if bits = 8 then ∃ d < 10, normalize value = ['0', Nat.digitChar d]
    else normalize value = List.replicate (bits / 4) '0'
  | .text =>
    value = [] ∨ 2 * maxSdoDataSize ≤ value.length ∧ normalize value = hexDump ((toLatin1 value).take maxSdoDataSize)
  | .other =>
    (∀ c ∈ normalize value, isDigitOf 16 c = true) ∧ (normalize value).length % 2 = 0 ∧
      (normalize value).length ≤ 2 * maxSdoDataSize

/-! ## What the handlers read -/

theorem value_upload (target : String) (position : Int) (index subIndex key : String) :
    value (sent target (.upload position index subIndex)) key =
      if key = "master" then .string target else if key = "subIndex" then .string subIndex
      else if key = "index" then .string index else if key = "position" then .int position else .null := by
  simp only [sent, Rpc.params, ofList, List.foldl_cons, List.foldl_nil, value_insert]
  rfl

theorem value_download (target : String) (position : Int) (index subIndex val type key : String) :
    value (sent target (.download position index subIndex val type)) key =
      if key = "master" then .string target else if key = "type" then .string type
      else if key = "value" then .string val else if key = "subIndex" then .string subIndex
      else if key = "index" then .string index else if key = "position" then .int position else .null := by
  simp only [sent, Rpc.params, ofList, List.foldl_cons, List.foldl_nil, value_insert]
  rfl

theorem toString_subIndexFromJson {obj : QJsonObject} {s : String} (h : value obj "subIndex" = .string s)
    (h' : value obj "subindex" = .null) : toStringD (subIndexFromJson obj) "" = s := by
  unfold subIndexFromJson
  dsimp only
  by_cases hs : s = ""
  · rw [h, if_pos (by rw [hs]; rfl), h', hs]
    rfl
  · rw [h, if_neg (by simpa [toStringD] using hs)]
    rfl

/-- The upload has no type. -/
theorem uploadHandler_eq (bus : Bus) (target : String) (position : Int) (index subIndex : String) :
    uploadHandler bus (sent target (.upload position index subIndex)) = upload bus index.toList subIndex.toList [] := by
  have hsub : toStringD (subIndexFromJson (sent target (.upload position index subIndex))) "" = subIndex :=
    toString_subIndexFromJson (by simp [value_upload]) (by simp [value_upload])
  rw [uploadHandler, hsub]
  simp [param, value_upload, toStringD]

theorem downloadHandler_eq (bus : Bus) (target : String) (position : Int) (index subIndex val type : String) :
    downloadHandler bus (sent target (.download position index subIndex val type)) =
      download bus (toIntD (.int position) 0) index.toList subIndex.toList val.toList type.toList := by
  have hsub : toStringD (subIndexFromJson (sent target (.download position index subIndex val type))) "" = subIndex :=
    toString_subIndexFromJson (by simp [value_download]) (by simp [value_download])
  rw [downloadHandler, hsub]
  simp [param, value_download, toStringD]

/-! ## Dumps -/

theorem format_untyped (data : Bytes) : format [] data = hexDump data := by
  unfold format
  split
  · rename_i h
    rw [h]
    rfl
  · have hs : sdoType [] = .other := by decide
    rw [hs]

theorem upload_untyped {bus : Bus} {index subIndex text : List Char} (h : upload bus index subIndex [] = .ok text) :
    text = hexDump (returned bus) := by
  unfold upload at h
  split at h
  · cases h
  · split at h
    · cases h
    · split at h
      · cases h
      · rw [format_untyped, Except.ok.injEq] at h
        exact h.symm

theorem not_space_of_hexDigit {c : Char} (h : isDigitOf 16 c = true) : isSpace c = false := by
  have hlt := isDigitOf_iff.1 h
  exact not_isSpace_of_digitVal (by omega)

theorem normalize_hexDump (bs : Bytes) : normalize (hexDump bs) = hexDump bs := by
  have htrim : trim (hexDump bs) = hexDump bs :=
    trim_of_not_space fun c hc => not_space_of_hexDigit (isDigitOf_hexDump c hc)
  have hfilter : (hexDump bs).filter (fun c => c ≠ ' ') = hexDump bs := by
    refine List.filter_eq_self.2 fun c hc => ?_
    rw [decide_eq_true_eq]
    rintro rfl
    exact absurd (isDigitOf_hexDump _ hc) (by decide)
  rw [normalize, htrim, hfilter, lower_hexDump]

theorem verify_hexDump (value : List Char) (bs : Bytes) :
    verify value (hexDump bs) = if normalize value = hexDump bs then .ok else .failed := by
  rw [verify, normalize_hexDump]

/-! ## Integers -/

/-- Two decimal digits read as hexadecimal ones. -/
def packed (p : Nat) : Nat := 16 * (p / 10) + p % 10

/-- No two pairs but zeros are, the other way round, the two bytes of their
number. The second pair fixes the first up to three choices. -/
theorem packed_two {p q : Nat} (hp : p < 100) (hq : q < 100) (h : 100 * p + q = packed p + 256 * packed q) :
    p = 0 ∧ q = 0 := by
  have hall : ((List.range 100).all fun q => (List.range 3).all fun j =>
      let p := (256 * packed q - q) / 100 + j
      100 * p + q != packed p + 256 * packed q || p + q == 0) = true := by decide +kernel
  have hle : packed p ≤ 153 := by unfold packed; omega
  have hge : q ≤ packed q := by unfold packed; omega
  generalize hj : p - (256 * packed q - q) / 100 = j
  have hj' : j < 3 := by omega
  have hpj : (256 * packed q - q) / 100 + j = p := by omega
  have hone := List.all_eq_true.1 (List.all_eq_true.1 hall q (List.mem_range.2 hq)) j (List.mem_range.2 hj')
  simp only [hpj, Bool.or_eq_true, bne_iff_ne, beq_iff_eq] at hone
  omega

/-- Nor four pairs. The last two fix the number up to six hundredths of a
million, that is the first two up to six choices. -/
theorem packed_four {p₀ p₁ p₂ p₃ : Nat} (h₀ : p₀ < 100) (h₁ : p₁ < 100) (h₂ : p₂ < 100) (h₃ : p₃ < 100)
    (h : 1000000 * p₀ + 10000 * p₁ + 100 * p₂ + p₃ =
      packed p₀ + 256 * packed p₁ + 65536 * packed p₂ + 16777216 * packed p₃) :
    p₀ = 0 ∧ p₁ = 0 ∧ p₂ = 0 ∧ p₃ = 0 := by
  have hall : ((List.range 6).all fun p₃ => (List.range 100).all fun p₂ => (List.range 6).all fun j =>
      let q := (65536 * packed p₂ + 16777216 * packed p₃ - (100 * p₂ + p₃)) / 10000 + j
      10000 * q + 100 * p₂ + p₃ !=
        packed (q / 100) + 256 * packed (q % 100) + 65536 * packed p₂ + 16777216 * packed p₃ ||
          q + p₂ + p₃ == 0) = true := by decide +kernel
  have hle : ∀ p < 100, packed p ≤ 153 := by decide
  have hge : ∀ p, p ≤ packed p := fun p => by unfold packed; omega
  have hle₀ := hle p₀ h₀
  have hle₁ := hle p₁ h₁
  have hle₂ := hle p₂ h₂
  have hge₂ := hge p₂
  have hge₃ := hge p₃
  have h₃' : p₃ < 6 := by omega
  generalize hj : 100 * p₀ + p₁ - (65536 * packed p₂ + 16777216 * packed p₃ - (100 * p₂ + p₃)) / 10000 = j
  have hj' : j < 6 := by omega
  have hq : (65536 * packed p₂ + 16777216 * packed p₃ - (100 * p₂ + p₃)) / 10000 + j = 100 * p₀ + p₁ := by omega
  have hq₀ : (100 * p₀ + p₁) / 100 = p₀ := by omega
  have hq₁ : (100 * p₀ + p₁) % 100 = p₁ := by omega
  have hone := List.all_eq_true.1 (List.all_eq_true.1 (List.all_eq_true.1 hall p₃ (List.mem_range.2 h₃')) p₂
    (List.mem_range.2 h₂)) j (List.mem_range.2 hj')
  simp only [hq, hq₀, hq₁, Bool.or_eq_true, bne_iff_ne, beq_iff_eq] at hone
  omega

/-- The two digits of a byte, if they are decimal: a pair that packs to it. -/
theorem packed_byte {b : Nat} (hb : b < 256) (h : ∀ c ∈ [Nat.digitChar (b / 16), Nat.digitChar (b % 16)], isDigitOf 10 c = true) :
    10 * digitVal (Nat.digitChar (b / 16)) + digitVal (Nat.digitChar (b % 16)) < 100 ∧
      packed (10 * digitVal (Nat.digitChar (b / 16)) + digitVal (Nat.digitChar (b % 16))) = b := by
  have h1 := isDigitOf_iff.1 (h _ List.mem_cons_self)
  have h2 := isDigitOf_iff.1 (h (Nat.digitChar (b % 16)) (by simp))
  rw [digitVal_digitChar (by omega)] at h1 h2 ⊢
  rw [digitVal_digitChar (by omega)]
  unfold packed
  omega

theorem toNat_ofNat_mod (n : Nat) : (UInt8.ofNat (n % 256)).toNat = n % 256 := by
  rw [UInt8.toNat_ofNat']
  omega

/-- One byte: a zero and a digit. -/
theorem dump_one {ds : List Char} (hd : ∀ c ∈ ds, isDigitOf 10 c = true) :
    ds = hexDump (leBytes 1 (ofDigits 10 ds)) ↔ ∃ d < 10, ds = ['0', Nat.digitChar d] := by
  constructor
  · intro h
    generalize hn : ofDigits 10 ds = n at h
    simp only [leBytes, hexDump_cons, toNat_ofNat_mod] at h
    rw [h] at hd hn
    obtain ⟨hlt, hpack⟩ := packed_byte (Nat.mod_lt n (by decide)) fun c hc => hd c (by simpa [hexDump] using hc)
    simp only [ofDigits, hexDump, List.foldl_cons, List.foldl_nil, List.flatMap_nil] at hn
    unfold packed at hpack
    have h10 : n < 10 := by omega
    refine ⟨n, h10, h.trans ?_⟩
    have hdiv : n % 256 / 16 = 0 := by omega
    have hmod : n % 256 % 16 = n := by omega
    rw [hdiv, hmod]
    rfl
  · rintro ⟨d, hd10, rfl⟩
    have hall : ∀ d < 10, ['0', Nat.digitChar d] = hexDump (leBytes 1 (ofDigits 10 ['0', Nat.digitChar d])) := by decide
    exact hall d hd10

/-- Two bytes: zeros. -/
theorem dump_two {ds : List Char} (hd : ∀ c ∈ ds, isDigitOf 10 c = true) :
    ds = hexDump (leBytes 2 (ofDigits 10 ds)) ↔ ds = List.replicate 4 '0' := by
  constructor
  · intro h
    generalize hn : ofDigits 10 ds = n at h
    simp only [leBytes, hexDump_cons, toNat_ofNat_mod] at h
    rw [h] at hd hn
    obtain ⟨hlt₀, hpack₀⟩ := packed_byte (Nat.mod_lt n (by decide)) fun c hc => hd c (by
      simp only [List.mem_cons, List.not_mem_nil, or_false] at hc ⊢; tauto)
    obtain ⟨hlt₁, hpack₁⟩ := packed_byte (Nat.mod_lt (n / 256) (by decide)) fun c hc => hd c (by
      simp only [List.mem_cons, List.not_mem_nil, or_false] at hc ⊢; tauto)
    simp only [ofDigits, hexDump, List.foldl_cons, List.foldl_nil, List.flatMap_nil] at hn
    have hzero := packed_two hlt₀ hlt₁ (by rw [hpack₀, hpack₁]; omega)
    have hn0 : n = 0 := by omega
    rw [h, hn0]
    decide
  · rintro rfl
    decide

/-- Four bytes: zeros. -/
theorem dump_four {ds : List Char} (hd : ∀ c ∈ ds, isDigitOf 10 c = true) :
    ds = hexDump (leBytes 4 (ofDigits 10 ds)) ↔ ds = List.replicate 8 '0' := by
  constructor
  · intro h
    generalize hn : ofDigits 10 ds = n at h
    simp only [leBytes, hexDump_cons, toNat_ofNat_mod] at h
    rw [h] at hd hn
    have hbyte : ∀ m, (∀ c ∈ [Nat.digitChar (m % 256 / 16), Nat.digitChar (m % 256 % 16)], isDigitOf 10 c = true) → _ :=
      fun m => packed_byte (Nat.mod_lt m (by decide))
    obtain ⟨hlt₀, hpack₀⟩ := hbyte n fun c hc => hd c (by
      simp only [List.mem_cons, List.not_mem_nil, or_false] at hc ⊢; tauto)
    obtain ⟨hlt₁, hpack₁⟩ := hbyte (n / 256) fun c hc => hd c (by
      simp only [List.mem_cons, List.not_mem_nil, or_false] at hc ⊢; tauto)
    obtain ⟨hlt₂, hpack₂⟩ := hbyte (n / 256 / 256) fun c hc => hd c (by
      simp only [List.mem_cons, List.not_mem_nil, or_false] at hc ⊢; tauto)
    obtain ⟨hlt₃, hpack₃⟩ := hbyte (n / 256 / 256 / 256) fun c hc => hd c (by
      simp only [List.mem_cons, List.not_mem_nil, or_false] at hc ⊢; tauto)
    simp only [ofDigits, hexDump, List.foldl_cons, List.foldl_nil, List.flatMap_nil] at hn
    have hzero := packed_four hlt₀ hlt₁ hlt₂ hlt₃ (by rw [hpack₀, hpack₁, hpack₂, hpack₃]; omega)
    have hn0 : n = 0 := by omega
    rw [h, hn0]
    decide
  · rintro rfl
    decide

/-- **The digits of an integer are its dump** only for these texts. -/
theorem dump_iff {ds : List Char} {bits : Nat} (hb : bits = 8 ∨ bits = 16 ∨ bits = 32)
    (hd : ∀ c ∈ ds, isDigitOf 10 c = true) :
    ds = hexDump (leBytes (bits / 8) (ofDigits 10 ds)) ↔
      if bits = 8 then ∃ d < 10, ds = ['0', Nat.digitChar d] else ds = List.replicate (bits / 4) '0' := by
  obtain rfl | rfl | rfl := hb
  · exact dump_one hd
  · exact dump_two hd
  · exact dump_four hd

/-- A sign is in no dump. -/
theorem signed_iff {c : Char} {ds : List Char} {bits : Nat} (hb : bits = 8 ∨ bits = 16 ∨ bits = 32) (data : Bytes)
    (hc : c = '+' ∨ c = '-') :
    c :: ds = hexDump data ↔
      if bits = 8 then ∃ d < 10, c :: ds = ['0', Nat.digitChar d] else c :: ds = List.replicate (bits / 4) '0' := by
  have hdigit : isDigitOf 16 c = false := by obtain rfl | rfl := hc <;> decide
  have hzero : c ≠ '0' := by obtain rfl | rfl := hc <;> decide
  constructor
  · intro h
    have hmem := isDigitOf_hexDump c (by rw [← h]; exact List.mem_cons_self)
    rw [hdigit] at hmem
    cases hmem
  · intro h
    obtain rfl | rfl | rfl := hb
    · obtain ⟨d, -, hd⟩ := h
      exact absurd (List.cons.inj hd).1 hzero
    · exact absurd (List.cons.inj h).1 hzero
    · exact absurd (List.cons.inj h).1 hzero

theorem decimal_lower {c : Char} (h : isDigitOf 10 c = true) : c.toLower = c ∧ c ≠ ' ' := by
  have hd := isDigitOf_iff.1 h
  rw [eq_of_digitVal hd rfl]
  generalize digitVal c = d at hd
  have hall : ∀ d < 10, (Char.ofNat (48 + d)).toLower = Char.ofNat (48 + d) ∧ Char.ofNat (48 + d) ≠ ' ' := by decide
  exact hall d hd

theorem normalize_eq {value : List Char} (h : ∀ c ∈ trim value, c.toLower = c ∧ c ≠ ' ') :
    normalize value = trim value := by
  have hfilter : (trim value).filter (fun c => c ≠ ' ') = trim value :=
    List.filter_eq_self.2 fun c hc => decide_eq_true (h c hc).2
  rw [normalize, hfilter]
  exact (List.map_congr_left fun c hc => (h c hc).1).trans (List.map_id _)

theorem skipPlus_cases (cs : List Char) : cs = skipPlus cs ∨ cs = '+' :: skipPlus cs := by
  unfold skipPlus
  split
  · exact .inr rfl
  · exact .inl rfl

/-- An integer without a minus sign. -/
theorem readBack_plain {value : List Char} {bits : Nat} (hb : bits = 8 ∨ bits = 16 ∨ bits = 32)
    (hd : ∀ c ∈ skipPlus (trim value), isDigitOf 10 c = true) :
    normalize value = hexDump (leBytes (bits / 8) (ofDigits 10 (skipPlus (trim value)))) ↔
      if bits = 8 then ∃ d < 10, normalize value = ['0', Nat.digitChar d]
      else normalize value = List.replicate (bits / 4) '0' := by
  generalize hds : skipPlus (trim value) = ds at hd
  obtain hv | hv := skipPlus_cases (trim value)
  · rw [hds] at hv
    rw [normalize_eq (by rw [hv]; exact fun c hc => decimal_lower (hd c hc)), hv]
    exact dump_iff hb hd
  · rw [hds] at hv
    have hlower : ∀ c ∈ trim value, c.toLower = c ∧ c ≠ ' ' := by
      rw [hv]
      intro c hc
      obtain rfl | hc := List.mem_cons.1 hc
      · decide
      · exact decimal_lower (hd c hc)
    rw [normalize_eq hlower, hv]
    exact signed_iff hb _ (.inl rfl)

/-- The bytes of a natural number in two's complement. -/
theorem leBytes_signed {bits : Nat} (hb : bits = 8 ∨ bits = 16 ∨ bits = 32) (k : Nat) :
    leBytes (bits / 8) ((k : Int) % 2 ^ bits).toNat = leBytes (bits / 8) k := by
  have hmod : ((k : Int) % 2 ^ bits).toNat = k % 2 ^ bits := by
    have hcast : ((k : Int) % 2 ^ bits) = ((k % 2 ^ bits : Nat) : Int) := by push_cast; rfl
    rw [hcast, Int.toNat_natCast]
  rw [hmod]
  obtain rfl | rfl | rfl := hb
  · exact leBytes_mod 1 k
  · exact leBytes_mod 2 k
  · exact leBytes_mod 4 k

theorem readBack_unsigned {value : List Char} {n bits : Nat} (hb : bits = 8 ∨ bits = 16 ∨ bits = 32)
    (hn : toUInt 10 value = some n) :
    normalize value = hexDump (leBytes (bits / 8) n) ↔
      if bits = 8 then ∃ d < 10, normalize value = ['0', Nat.digitChar d]
      else normalize value = List.replicate (bits / 4) '0' := by
  obtain ⟨-, hd, rfl, -⟩ := toUnsigned_ten.1 hn
  exact readBack_plain hb hd

theorem readBack_signed {value : List Char} {n : Int} {bits : Nat} (hb : bits = 8 ∨ bits = 16 ∨ bits = 32)
    (hn : toInt 10 value = some n) :
    normalize value = hexDump (leBytes (bits / 8) (n % 2 ^ bits).toNat) ↔
      if bits = 8 then ∃ d < 10, normalize value = ['0', Nat.digitChar d]
      else normalize value = List.replicate (bits / 4) '0' := by
  unfold toInt toSigned at hn
  split at hn
  · rename_i cs hcs
    obtain ⟨k, hk, -⟩ := Option.map_eq_some_iff.1 hn
    have hd := (magnitude_eq_some.1 (Option.filter_eq_some_iff.1 hk).1).2.1
    rw [skipPrefix_ten] at hd
    have hlower : ∀ c ∈ trim value, c.toLower = c ∧ c ≠ ' ' := by
      rw [hcs]
      intro c hc
      obtain rfl | hc := List.mem_cons.1 hc
      · decide
      · exact decimal_lower (hd c hc)
    rw [normalize_eq hlower, hcs]
    exact signed_iff hb _ (.inr rfl)
  · obtain ⟨k, hk, rfl⟩ := Option.map_eq_some_iff.1 hn
    obtain ⟨-, hd, rfl⟩ := magnitude_eq_some.1 (Option.filter_eq_some_iff.1 hk).1
    rw [skipPrefix_ten] at hd ⊢
    rw [leBytes_signed hb]
    exact readBack_plain hb hd

/-! ## Texts and bytes -/

theorem normalize_length (value : List Char) : (normalize value).length ≤ value.length := by
  unfold normalize lower
  rw [List.length_map]
  refine Nat.le_trans (List.length_filter_le ..) ?_
  unfold trim
  rw [List.length_reverse]
  refine Nat.le_trans (List.dropWhile_sublist _).length_le ?_
  rw [List.length_reverse]
  exact (List.dropWhile_sublist _).length_le

/-- A string is too short to be its dump, unless it is longer than a transfer. -/
theorem readBack_text (value : List Char) :
    normalize value = hexDump ((toLatin1 value).take maxSdoDataSize) ↔
      value = [] ∨ 2 * maxSdoDataSize ≤ value.length ∧ normalize value = hexDump ((toLatin1 value).take maxSdoDataSize) := by
  constructor
  · intro h
    have hlen := congrArg List.length h
    have hle := normalize_length value
    rw [hexDump_length, List.length_take, toLatin1, List.length_map] at hlen
    by_cases hv : value.length = 0
    · exact .inl (List.length_eq_zero_iff.1 hv)
    · refine .inr ⟨?_, h⟩
      omega
  · rintro (rfl | h)
    · decide
    · exact h.2

theorem startsWith0x_digits {cs : List Char} (h : ∀ c ∈ lower (cs.filter fun c => c ≠ ' '), isDigitOf 16 c = true) :
    startsWith0x cs = false := by
  by_contra hx
  rw [Bool.not_eq_false] at hx
  unfold startsWith0x at hx
  split at hx
  · rename_i c cs
    rw [Bool.or_eq_true, beq_iff_eq, beq_iff_eq] at hx
    obtain rfl | rfl := hx
    · exact absurd (h 'x' (by simp [lower])) (by decide)
    · exact absurd (h 'x' (by simp [lower])) (by decide)
  · cases hx

/-- Bytes are written as their dump. -/
theorem readBack_other (value : List Char) :
    normalize value = hexDump ((fromHex (if startsWith0x (trim value) then (trim value).drop 2 else trim value)).take
        maxSdoDataSize) ↔
      (∀ c ∈ normalize value, isDigitOf 16 c = true) ∧ (normalize value).length % 2 = 0 ∧
        (normalize value).length ≤ 2 * maxSdoDataSize := by
  constructor
  · intro h
    rw [h]
    refine ⟨isDigitOf_hexDump, ?_, ?_⟩
    · rw [hexDump_length]
      omega
    · rw [hexDump_length, List.length_take]
      omega
  · rintro ⟨hd, heven, hle⟩
    rw [startsWith0x_digits hd, if_neg Bool.false_ne_true]
    have hdigits : ∀ c ∈ (trim value).filter (fun c => c ≠ ' '), isDigitOf 16 c = true := by
      intro c hc
      have hl := hd c.toLower (List.mem_map_of_mem hc)
      rwa [isDigitOf_iff, digitVal_toLower, ← isDigitOf_iff] at hl
    -- what is no digit is a space, so both pass over the same characters
    have hfilter : ((trim value).filter fun c => c ≠ ' ').filter (isDigitOf 16) = (trim value).filter (isDigitOf 16) := by
      rw [List.filter_filter]
      refine List.filter_congr fun c hc => ?_
      by_cases hs : c = ' '
      · rw [hs]
        decide
      · simp [hs]
    have hbytes : fromHex (trim value) = fromHex ((trim value).filter fun c => c ≠ ' ') := by
      rw [fromHex, fromHex, hfilter]
    have hlen : ((trim value).filter fun c => c ≠ ' ').length = (normalize value).length := by
      rw [normalize, lower, List.length_map]
    have hdump := hexDump_fromHex hdigits (by rw [hlen]; exact heven)
    have hsize : (fromHex ((trim value).filter fun c => c ≠ ' ')).length ≤ maxSdoDataSize := by
      have hl := congrArg List.length hdump
      rw [hexDump_length, lower, List.length_map, hlen] at hl
      omega
    rw [hbytes, List.take_of_length_le hsize, hdump]
    rfl

/-- **Which texts are the dump of what they write.** -/
theorem readBack_iff {value type : List Char} {data : Bytes} (h : encode value type = .ok data) :
    normalize value = hexDump data ↔ ReadsBack value (sdoType type) := by
  unfold encode at h
  cases hs : sdoType type with
  | unsigned bits =>
    rw [hs] at h
    dsimp only at h
    split at h
    · cases h
    · cases h
      exact readBack_unsigned (sdoType_bits (.inl hs)) ‹_›
  | signed bits =>
    rw [hs] at h
    dsimp only at h
    split at h
    · cases h
    · cases h
      exact readBack_signed (sdoType_bits (.inr hs)) ‹_›
  | text =>
    rw [hs] at h
    cases h
    exact readBack_text value
  | other =>
    rw [hs] at h
    cases h
    exact readBack_other value

/-! ## Verdicts -/

theorem encode_length {value type : List Char} {data : Bytes} (h : encode value type = .ok data) :
    data.length ≤ maxSdoDataSize := by
  unfold encode at h
  cases hs : sdoType type with
  | unsigned bits =>
    rw [hs] at h
    dsimp only at h
    split at h
    · cases h
    · cases h
      have hb := sdoType_bits (.inl hs)
      rw [leBytes_length, maxSdoDataSize]
      omega
  | signed bits =>
    rw [hs] at h
    dsimp only at h
    split at h
    · cases h
    · cases h
      have hb := sdoType_bits (.inr hs)
      rw [leBytes_length, maxSdoDataSize]
      omega
  | text =>
    rw [hs] at h
    cases h
    exact List.length_take_le ..
  | other =>
    rw [hs] at h
    cases h
    exact List.length_take_le ..

/-- A write that succeeded. -/
theorem download_ok {bus : Bus} {position : Int} {index subIndex value type : List Char} {t : Transfer}
    (h : download bus position index subIndex value type = (some t, .ok ())) :
    (∃ a, address index subIndex = .ok a) ∧ encode value type = .ok t.data := by
  unfold download at h
  split at h
  · cases h
  · cases ha : address index subIndex with
    | error e => simp [ha] at h
    | ok a =>
      cases hv : encode value type with
      | error e => simp [ha, hv] at h
      | ok data =>
        simp only [ha, hv, Prod.mk.injEq, Option.some.injEq] at h
        refine ⟨⟨a, rfl⟩, ?_⟩
        rw [← h.1]

/-- **The verdict is right** for every answer of the device if and only if the
text that was written is, spaces and case aside, the dump of its own bytes. -/
theorem verdict_iff {target : String} {bus : Bus} {position : Int} {index subIndex val type : String} {t : Transfer}
    (h : downloadHandler bus (sent target (.download position index subIndex val type)) = (some t, .ok ())) :
    (∀ (bus : Bus) (position : Int) (index subIndex : String) (text : List Char),
      uploadHandler bus (sent target (.upload position index subIndex)) = .ok text →
        verify val.toList text = if returned bus = t.data then .ok else .failed) ↔
      ReadsBack val.toList (sdoType type.toList) := by
  rw [downloadHandler_eq] at h
  obtain ⟨⟨a, ha⟩, hv⟩ := download_ok h
  rw [← readBack_iff hv]
  constructor
  · intro hall
    -- the device returns what was written
    have hup : uploadHandler ⟨true, 0, 0, t.data⟩ (sent target (.upload position index subIndex)) =
        .ok (hexDump (t.data.take maxSdoDataSize)) := by
      rw [uploadHandler_eq, upload, ha]
      simp [format_untyped]
    have htake : t.data.take maxSdoDataSize = t.data := List.take_of_length_le (encode_length hv)
    have hone := hall ⟨true, 0, 0, t.data⟩ position index subIndex _ hup
    rw [returned, htake, if_pos rfl, verify_hexDump] at hone
    by_contra hne
    rw [if_neg hne] at hone
    cases hone
  · intro hself bus position index subIndex text hup
    rw [uploadHandler_eq] at hup
    rw [upload_untyped hup, verify_hexDump, hself]
    by_cases hsame : returned bus = t.data
    · rw [if_pos hsame, if_pos (by rw [hsame])]
    · rw [if_neg hsame, if_neg fun he => hsame (hexDump_inj he).symm]

/-- Four bytes written as hexadecimal digits, with spaces. -/
theorem bytes_verified :
    downloadHandler ⟨true, 0, 0, []⟩ (sent "0" (.download 1 "0x6040" "0" "0F 00 1a 2b" "octet_string")) =
        (some ⟨1, 0x6040, 0, [15, 0, 26, 43]⟩, .ok ()) ∧
      verify "0F 00 1a 2b".toList "0f001a2b".toList = .ok ∧ verify "0F 00 1a 2b".toList "0f001a2c".toList = .failed := by
  have hwrite : downloadHandler ⟨true, 0, 0, []⟩ (sent "0" (.download 1 "0x6040" "0" "0F 00 1a 2b" "octet_string")) =
      (some ⟨1, 0x6040, 0, [15, 0, 26, 43]⟩, .ok ()) := by decide +kernel
  have hother : sdoType "octet_string".toList = .other := by decide +kernel
  have hself : ReadsBack "0F 00 1a 2b".toList (sdoType "octet_string".toList) := by
    rw [hother]
    exact ⟨List.all_eq_true.1 (by decide +kernel), by decide +kernel, by decide +kernel⟩
  have hall := (verdict_iff hwrite).2 hself
  exact ⟨hwrite, hall ⟨true, 0, 0, [15, 0, 26, 43]⟩ 1 "0x6040" "0" _ (by decide +kernel),
    hall ⟨true, 0, 0, [15, 0, 26, 44]⟩ 1 "0x6040" "0" _ (by decide +kernel)⟩

/-- The control word 6 returns as it was written, and fails; 1234 is written as
`d2 04`, and `12 34` passes. -/
theorem verdict_wrong :
    (downloadHandler ⟨true, 0, 0, []⟩ (sent "0" (.download 1 "0x6040" "0" "6" "uint16")) =
        (some ⟨1, 0x6040, 0, [6, 0]⟩, .ok ()) ∧
      uploadHandler ⟨true, 0, 0, [6, 0]⟩ (sent "0" (.upload 1 "0x6040" "0")) = .ok "0600".toList ∧
      verify "6".toList "0600".toList = .failed) ∧
    (downloadHandler ⟨true, 0, 0, []⟩ (sent "0" (.download 1 "0x6040" "0" "1234" "uint16")) =
        (some ⟨1, 0x6040, 0, [0xd2, 0x04]⟩, .ok ()) ∧
      uploadHandler ⟨true, 0, 0, [0x12, 0x34]⟩ (sent "0" (.upload 1 "0x6040" "0")) = .ok "1234".toList ∧
      verify "1234".toList "1234".toList = .ok) := by
  decide +kernel

end NekoEcat.L4.SdoReadBack
