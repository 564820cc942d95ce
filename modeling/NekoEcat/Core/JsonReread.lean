import NekoEcat.Core.QJson

/-!
# Reading back what `QJsonDocument` writes

The text of a value is read back as the value, with two exceptions: a number that
is not finite is written as `null`, and the parser follows arrays and objects only
to a certain depth.

* `compact_reread`: the compact text stays what it was.
* `reread_eq_iff`: which values come back as they were.
-/
namespace NekoEcat.QJson

mutual

/-- What is read from the text of a value. -/
def reread : QJsonValue → QJsonValue
  | .null => .null
  | .bool b => .bool b
  | .int n => .int n
  | .double text => if text = "null" then .null else .double text
  | .string s => .string s
  | .array vs => .array (rereadList vs)
  | .object fs => .object (rereadFields fs)

def rereadList : List QJsonValue → List QJsonValue
  | [] => []
  | v :: vs => reread v :: rereadList vs

def rereadFields : List (String × QJsonValue) → List (String × QJsonValue)
  | [] => []
  | (k, v) :: fs => (k, reread v) :: rereadFields fs

end

mutual

/-- Every number in the value is finite. -/
def isFinite : QJsonValue → Bool
  | .double text => text != "null"
  | .array vs => isFiniteList vs
  | .object fs => isFiniteFields fs
  | .null | .bool _ | .int _ | .string _ => true

def isFiniteList : List QJsonValue → Bool
  | [] => true
  | v :: vs => isFinite v && isFiniteList vs

def isFiniteFields : List (String × QJsonValue) → Bool
  | [] => true
  | (_, v) :: fs => isFinite v && isFiniteFields fs

end

mutual

/-- How many arrays and objects lie inside each other. -/
def depth : QJsonValue → Nat
  | .array vs => depthList vs + 1
  | .object fs => depthFields fs + 1
  | .null | .bool _ | .int _ | .double _ | .string _ => 0

def depthList : List QJsonValue → Nat
  | [] => 0
  | v :: vs => max (depth v) (depthList vs)

def depthFields : List (String × QJsonValue) → Nat
  | [] => 0
  | (_, v) :: fs => max (depth v) (depthFields fs)

end

/-! ## The text -/

mutual

/-- **A value is written as what it is read back as**: `null` twice. -/
theorem compact_reread : ∀ v : QJsonValue, compact (reread v) = compact v
  | .null => rfl
  | .bool _ => rfl
  | .int _ => rfl
  | .double text => by
    rw [reread]
    split
    · rename_i h
      rw [compact, compact, h]
    · rfl
  | .string _ => rfl
  | .array vs => by rw [reread, compact, compact, compactList_reread vs]
  | .object fs => by rw [reread, compact, compact, compactFields_reread fs]

theorem compactList_reread : ∀ vs : List QJsonValue, compactList (rereadList vs) = compactList vs
  | [] => rfl
  | [v] => by rw [rereadList, rereadList, compactList, compactList, compact_reread v]
  | v :: w :: vs => by
    have hrest := compactList_reread (w :: vs)
    rw [rereadList] at hrest
    rw [rereadList, rereadList, compactList, compactList, compact_reread v, hrest]

theorem compactFields_reread : ∀ fs : QJsonObject, compactFields (rereadFields fs) = compactFields fs
  | [] => rfl
  | [(k, v)] => by rw [rereadFields, rereadFields, compactFields, compactFields, compact_reread v]
  | (k, v) :: (k', w) :: fs => by
    have hrest := compactFields_reread ((k', w) :: fs)
    rw [rereadFields] at hrest
    rw [rereadFields, rereadFields, compactFields, compactFields, compact_reread v, hrest]

end

mutual

/-- **A value comes back as it was** iff its numbers are finite. -/
theorem reread_eq_iff : ∀ v : QJsonValue, reread v = v ↔ isFinite v = true
  | .null => iff_of_true rfl rfl
  | .bool _ => iff_of_true rfl rfl
  | .int _ => iff_of_true rfl rfl
  | .double text => by
    rw [reread, isFinite, bne_iff_ne]
    split
    · rename_i h
      exact iff_of_false (fun h => nomatch h) fun hne => hne h
    · rename_i h
      exact iff_of_true rfl h
  | .string _ => iff_of_true rfl rfl
  | .array vs => by rw [reread, isFinite, QJsonValue.array.injEq, rereadList_eq_iff vs]
  | .object fs => by rw [reread, isFinite, QJsonValue.object.injEq, rereadFields_eq_iff fs]

theorem rereadList_eq_iff : ∀ vs : List QJsonValue, rereadList vs = vs ↔ isFiniteList vs = true
  | [] => iff_of_true rfl rfl
  | v :: vs => by
    rw [rereadList, isFiniteList, List.cons.injEq, reread_eq_iff v, rereadList_eq_iff vs, Bool.and_eq_true]

theorem rereadFields_eq_iff : ∀ fs : QJsonObject, rereadFields fs = fs ↔ isFiniteFields fs = true
  | [] => iff_of_true rfl rfl
  | (k, v) :: fs => by
    rw [rereadFields, isFiniteFields, List.cons.injEq, Prod.mk.injEq, eq_self, true_and, reread_eq_iff v,
      rereadFields_eq_iff fs, Bool.and_eq_true]

end

/-! ## The fields -/

theorem value_rereadFields (k : String) : ∀ o : QJsonObject, value (rereadFields o) k = reread (value o k)
  | [] => rfl
  | (k', v) :: o => by
    rw [rereadFields, value_cons, value_cons, value_rereadFields k o]
    split <;> rfl

theorem remove_rereadFields (k : String) : ∀ o : QJsonObject, remove (rereadFields o) k = rereadFields (remove o k)
  | [] => rfl
  | (k', v) :: o => by
    have hrest := remove_rereadFields k o
    unfold remove at hrest ⊢
    rw [rereadFields, List.filter_cons, List.filter_cons, hrest]
    split
    · rw [rereadFields]
    · rfl

/-- Removing a key forgets what it was set to. -/
theorem remove_insert (k : String) (v : QJsonValue) : ∀ o : QJsonObject, remove (insert k v o) k = remove o k
  | [] => by simp [remove, insert]
  | (k', v') :: o => by
    have hrest := remove_insert k v o
    unfold remove at hrest ⊢
    rw [insert]
    split
    · rename_i h
      simp [h]
    · split
      · simp
      · rw [List.filter_cons, List.filter_cons, hrest]

theorem depthFields_le {n : Nat} : ∀ {o : QJsonObject}, depthFields o ≤ n ↔ ∀ f ∈ o, depth f.2 ≤ n
  | [] => by simp [depthFields]
  | (k, v) :: o => by
    rw [depthFields, Nat.max_le, depthFields_le, List.forall_mem_cons]

end NekoEcat.QJson
