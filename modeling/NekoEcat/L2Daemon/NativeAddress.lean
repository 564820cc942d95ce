import NekoEcat.L2Daemon.NativeMaster
import NekoEcat.L2Daemon.NativeSdo

/-!
# The objects that native SDO requests name

A request names its object by three texts and a number. Each goes through a
conversion of its own into the arguments of the library call: the master through
`toInt`, or 0; the position through a cast to 16 bits; the index through
`toUShort`; the subindex through `toUShort` and a cast to 8 bits.

* `Named`: the object that the arguments name.
* `exact_iff`: which requests reach no other object.
* `wrapped_subindex`: one that does.
-/
namespace NekoEcat.L2.NativeSdo
open NekoEcat.Bytes NekoEcat.QNumber NekoEcat.L2.NativeMaster

/-- The arguments of `ecrt_master_sdo_upload` and `ecrt_master_sdo_download`: the
master that was opened, and the object. -/
structure Target where
  master : UInt32
  position : UInt16
  index : UInt16
  subindex : UInt8
  deriving DecidableEq, Repr

structure Request where
  master : List Char
  position : Int32
  index : List Char
  subIndex : List Char
  type : List Char
  deriving DecidableEq, Repr

/-- What a request meets: the daemon, and the answers of the library. -/
structure Call where
  daemon : Daemon
  grant : Grant
  ret : Int
  abortCode : UInt32
  data : Bytes

/-- The guard, and what the library call returns. -/
def Call.bus (c : Call) (r : Request) : Bus :=
  ⟨(acquireMaster c.daemon c.grant r.master).1, c.ret, c.abortCode, c.data⟩

/-- The master that the guard holds is the cached one. -/
def Call.held (c : Call) (r : Request) : Option UInt32 :=
  if (acquireMaster c.daemon c.grant r.master).1 then
    (acquireMaster c.daemon c.grant r.master).2.cached.map ecrtIndex
  else none

/-- The object that is read, and the answer.
mirrors src/igh/EthercatNativeBackend.cpp:364-443 -/
def uploadFrom (c : Call) (r : Request) : Option Target × Except String (List Char) :=
  (match c.held r, address r.index r.subIndex with
    | some master, .ok (index, sub) => some ⟨master, UInt16.ofInt r.position.toInt, index, sub⟩
    | _, _ => none,
    upload (c.bus r) r.index r.subIndex r.type)

/-- The object that is written, and the answer.
mirrors src/igh/EthercatNativeBackend.cpp:458-569 -/
def downloadTo (c : Call) (r : Request) (value : List Char) : Option Target × Except String Unit :=
  let (transfer, answer) := download (c.bus r) r.position.toInt r.index r.subIndex value r.type
  (match c.held r, transfer with
    | some master, some t => some ⟨master, t.position, t.index, t.subindex⟩
    | _, _ => none, answer)

/-! ## What the arguments name -/

/-- No text is master 0. -/
def namedMaster (master : List Char) : Option Int := if master = [] then some 0 else integer 10 master

/-- The object that the arguments name. -/
structure Named (r : Request) (t : Target) : Prop where
  master : namedMaster r.master = some (t.master.toNat : Int)
  position : r.position.toInt = t.position.toNat
  index : natural 16 r.index = some t.index.toNat
  subindex : natural 16 r.subIndex = some t.subindex.toNat

/-- The transfer is on the object that was named, or there is none and an error. -/
def Exact {α : Type} (r : Request) (result : Option Target × Except String α) : Prop :=
  match result.1 with
  | some t => Named r t
  | none => ∃ e, result.2 = .error e

/-- The index or the subindex is no number of 16 bits. -/
def NoAddress (r : Request) : Prop := toUShort 16 r.index = none ∨ toUShort 16 r.subIndex = none

/-- The value is no number of 32 bits, and the type wants one. -/
def NoValue (type value : List Char) : Prop :=
  match sdoType type with
  | .unsigned _ => toUInt 10 value = none
  | .signed _ => toInt 10 value = none
  | _ => False

/-- Master, position and subindex are in the range of the library. -/
structure InRange (r : Request) : Prop where
  master : ∃ n, namedMaster r.master = some n ∧ 0 ≤ n ∧ n < 2 ^ 31
  position : 0 ≤ r.position.toInt ∧ r.position.toInt < 2 ^ 16
  subindex : ∀ n, natural 16 r.subIndex = some n → n < 2 ^ 8

/-! ## The conversions -/

section
variable {c : Call} {r : Request}

theorem held_eq (c : Call) (r : Request) :
    c.held r = if (c.bus r).opens then some (ecrtIndex (masterIndex r.master)) else none := by
  unfold Call.held Call.bus
  dsimp only
  split
  · rename_i hok
    unfold acquireMaster masterGuard at hok ⊢
    split at hok
    · rename_i hcached
      rw [if_pos hcached, hcached]
      rfl
    · split at hok
      · rename_i hno hgrants
        rw [if_neg hno, if_pos hgrants]
        rfl
      · cases hok
  · rfl

theorem address_ok {index subIndex : List Char} {idx : UInt16} {sub : UInt8} (h : address index subIndex = .ok (idx, sub)) :
    ∃ m n, toUShort 16 index = some m ∧ toUShort 16 subIndex = some n ∧ idx = UInt16.ofNat m ∧ sub = UInt8.ofNat n := by
  unfold address at h
  split at h
  · cases h
  · rename_i m hm
    split at h
    · cases h
    · rename_i n hn
      simp only [Except.ok.injEq, Prod.mk.injEq] at h
      exact ⟨m, n, hm, hn, h.1.symm, h.2.symm⟩

theorem address_error_iff {index subIndex : List Char} :
    (∃ e, address index subIndex = .error e) ↔ toUShort 16 index = none ∨ toUShort 16 subIndex = none := by
  unfold address
  cases toUShort 16 index with
  | none => simp
  | some m =>
    cases toUShort 16 subIndex with
    | none => simp
    | some n => simp

theorem encode_error_iff {value type : List Char} : (∃ e, encode value type = .error e) ↔ NoValue type value := by
  unfold encode NoValue
  cases sdoType type with
  | unsigned bits => cases toUInt 10 value <;> simp
  | signed bits => cases toInt 10 value <;> simp
  | text => simp
  | other => simp

/-- A master in range is opened as itself. -/
theorem master_iff {master : List Char} :
    namedMaster master = some ((ecrtIndex (masterIndex master)).toNat : Int) ↔
      ∃ n, namedMaster master = some n ∧ 0 ≤ n ∧ n < 2 ^ 31 := by
  have hempty : masterIndex [] = 0 := by decide
  have hrange : -2 ^ 31 ≤ masterIndex master ∧ masterIndex master < 2 ^ 31 := by
    unfold masterIndex
    cases h : toInt 10 master with
    | none => constructor <;> decide
    | some n =>
      obtain ⟨-, hlow, hhigh⟩ := toSigned_eq_some.1 h
      exact ⟨hlow, hhigh⟩
  have hcast : ((ecrtIndex (masterIndex master)).toNat : Int) = masterIndex master % 2 ^ 32 := by
    rw [ecrtIndex, UInt32.ofInt, UInt32.toNat_ofNat']
    omega
  rw [hcast]
  unfold namedMaster
  by_cases he : master = []
  · subst he
    rw [if_pos rfl, hempty]
    refine iff_of_true rfl ⟨0, rfl, by decide, by decide⟩
  · rw [if_neg he]
    constructor
    · intro hn
      cases ht : toInt 10 master with
      | none =>
        -- the text is no number of 32 bits and is taken for 0
        have hzero : masterIndex master = 0 := by rw [masterIndex, ht]; rfl
        rw [hzero] at hn
        have hread : toInt 10 master = some 0 := toSigned_eq_some.2 ⟨hn, by decide, by decide⟩
        rw [ht] at hread
        cases hread
      | some n =>
        obtain ⟨hint, hlow, hhigh⟩ := toSigned_eq_some.1 ht
        have hindex : masterIndex master = n := by rw [masterIndex, ht]; rfl
        refine ⟨n, hint, ?_, hhigh⟩
        rw [hint, hindex, Option.some.injEq] at hn
        omega
    · rintro ⟨n, hint, hlow, hhigh⟩
      have hread : toInt 10 master = some n := toSigned_eq_some.2 ⟨hint, by omega, hhigh⟩
      have hindex : masterIndex master = n := by rw [masterIndex, hread]; rfl
      rw [hint, hindex, Int.emod_eq_of_lt hlow (by omega)]

theorem position_iff (p : Int32) : p.toInt = ((UInt16.ofInt p.toInt).toNat : Int) ↔ 0 ≤ p.toInt ∧ p.toInt < 2 ^ 16 := by
  have hcast : ((UInt16.ofInt p.toInt).toNat : Int) = p.toInt % 2 ^ 16 := by
    rw [UInt16.ofInt, UInt16.toNat_ofNat']
    omega
  rw [hcast]
  omega

/-- **A transfer is on the object that was named** iff the arguments are in range. -/
theorem named_iff {index : UInt16} {sub : UInt8} (h : address r.index r.subIndex = .ok (index, sub)) :
    Named r ⟨ecrtIndex (masterIndex r.master), UInt16.ofInt r.position.toInt, index, sub⟩ ↔ InRange r := by
  obtain ⟨m, n, hm, hn, rfl, rfl⟩ := address_ok h
  obtain ⟨hm', hmlt⟩ := toUnsigned_eq_some.1 hm
  obtain ⟨hn', hnlt⟩ := toUnsigned_eq_some.1 hn
  have hindex : (UInt16.ofNat m).toNat = m := by
    rw [UInt16.toNat_ofNat']
    omega
  have hsub : (UInt8.ofNat n).toNat = n % 2 ^ 8 := UInt8.toNat_ofNat'
  constructor
  · intro h
    refine ⟨master_iff.1 h.master, (position_iff _).1 h.position, fun k hk => ?_⟩
    have heq := h.subindex
    rw [hk] at heq hn'
    simp only [hsub, Option.some.injEq] at heq
    omega
  · intro h
    refine ⟨master_iff.2 h.master, (position_iff _).2 h.position, by rw [hm', hindex], ?_⟩
    rw [hn', hsub, Nat.mod_eq_of_lt (h.subindex n hn')]

/-! ## Requests -/

/-- What the two requests share: the guard, the address, and then the transfer. -/
theorem upload_target (hopen : (c.bus r).opens = true) {index : UInt16} {sub : UInt8}
    (h : address r.index r.subIndex = .ok (index, sub)) : (uploadFrom c r).1 =
      some ⟨ecrtIndex (masterIndex r.master), UInt16.ofInt r.position.toInt, index, sub⟩ := by
  simp only [uploadFrom, held_eq, hopen, if_true, h]

theorem download_target (hopen : (c.bus r).opens = true) {index : UInt16} {sub : UInt8}
    (h : address r.index r.subIndex = .ok (index, sub)) {value : List Char} {data : Bytes}
    (he : encode value r.type = .ok data) : (downloadTo c r value).1 =
      some ⟨ecrtIndex (masterIndex r.master), UInt16.ofInt r.position.toInt, index, sub⟩ := by
  have hcast : UInt16.ofNat (r.position.toInt % 2 ^ 16).toNat = UInt16.ofInt r.position.toInt := rfl
  simp only [downloadTo, download, held_eq, hopen, if_true, h, he, Bool.not_true, Bool.false_eq_true, if_false, hcast]

/-- Somebody who is alone with the master is granted it. -/
def granted : Call := ⟨NativeMaster.initial false, ⟨true, true⟩, 0, 0, []⟩

theorem granted_opens (r : Request) : (granted.bus r).opens = true := rfl

theorem upload_exact_iff (r : Request) : (∀ c, Exact r (uploadFrom c r)) ↔ NoAddress r ∨ InRange r := by
  constructor
  · intro h
    cases ha : address r.index r.subIndex with
    | error e => exact Or.inl (address_error_iff.1 ⟨e, ha⟩)
    | ok target =>
      have hexact := h granted
      unfold Exact at hexact
      rw [upload_target (granted_opens r) ha] at hexact
      exact Or.inr ((named_iff ha).1 hexact)
  · rintro h c
    unfold Exact
    cases hopen : (c.bus r).opens with
    | false => simp [uploadFrom, held_eq, upload, hopen]
    | true =>
      cases ha : address r.index r.subIndex with
      | error e => simp [uploadFrom, held_eq, upload, hopen, ha]
      | ok target =>
        rw [upload_target hopen ha]
        rcases h with hno | hrange
        · obtain ⟨e, he⟩ := address_error_iff.2 hno
          rw [ha] at he
          cases he
        · exact (named_iff ha).2 hrange

theorem download_exact_iff (r : Request) (value : List Char) :
    (∀ c, Exact r (downloadTo c r value)) ↔ NoAddress r ∨ NoValue r.type value ∨ InRange r := by
  constructor
  · intro h
    cases ha : address r.index r.subIndex with
    | error e => exact Or.inl (address_error_iff.1 ⟨e, ha⟩)
    | ok target =>
      cases he : encode value r.type with
      | error e => exact Or.inr (Or.inl (encode_error_iff.1 ⟨e, he⟩))
      | ok data =>
        have hexact := h granted
        unfold Exact at hexact
        rw [download_target (granted_opens r) ha he] at hexact
        exact Or.inr (Or.inr ((named_iff ha).1 hexact))
  · rintro h c
    unfold Exact
    cases hopen : (c.bus r).opens with
    | false => simp [downloadTo, held_eq, download, hopen]
    | true =>
      cases ha : address r.index r.subIndex with
      | error e => simp [downloadTo, held_eq, download, hopen, ha]
      | ok target =>
        cases he : encode value r.type with
        | error e => simp [downloadTo, held_eq, download, hopen, ha, he]
        | ok data =>
          rw [download_target hopen ha he]
          rcases h with hno | hno | hrange
          · obtain ⟨e, heq⟩ := address_error_iff.2 hno
            rw [ha] at heq
            cases heq
          · obtain ⟨e, heq⟩ := encode_error_iff.2 hno
            rw [he] at heq
            cases heq
          · exact (named_iff ha).2 hrange

end

/-- **Which requests reach no other object**: those that are refused for their
index, their subindex or their value, and those that are in range. -/
theorem exact_iff (r : Request) (value : List Char) :
    ((∀ c, Exact r (uploadFrom c r)) ↔ NoAddress r ∨ InRange r) ∧
      ((∀ c, Exact r (downloadTo c r value)) ↔ NoAddress r ∨ NoValue r.type value ∨ InRange r) :=
  ⟨upload_exact_iff r, download_exact_iff r value⟩

/-- Subindex 256 is read as subindex 0. -/
theorem wrapped_subindex :
    (uploadFrom granted ⟨['0'], 0, "0x6040".toList, "0x100".toList, []⟩).1 = some ⟨0, 0, 0x6040, 0⟩ ∧
      ¬ ∀ (r : Request) (value : List Char),
        (∀ c, Exact r (uploadFrom c r)) ∧ ∀ c, Exact r (downloadTo c r value) := by
  have hrun : (uploadFrom granted ⟨['0'], 0, "0x6040".toList, "0x100".toList, []⟩).1 = some ⟨0, 0, 0x6040, 0⟩ := by
    decide +kernel
  refine ⟨hrun, fun h => ?_⟩
  have hexact := (h ⟨['0'], 0, "0x6040".toList, "0x100".toList, []⟩ []).1 granted
  unfold Exact at hexact
  rw [hrun] at hexact
  exact absurd hexact.subindex (by decide +kernel)

end NekoEcat.L2.NativeSdo
