import Mathlib.Data.List.Basic

/-!
# XML as a tree, and as what a stream reader goes through

The content of an element is texts, comments and elements one after the other. A
stream reader goes through it token by token; attributes are left out.

* `readElementText_tokens`: an element that contains only text is read as this text.
* `first_split`: where the first element of a name starts and ends.
* `mem_tokens`: a reader meets only the names that occur.
-/
namespace NekoEcat.XmlTree

abbrev Text := List Char

inductive Content where
  | done
  | text (cs : Text) (rest : Content)
  /-- a comment or a processing instruction -/
  | other (rest : Content)
  | element (name : String) (inside rest : Content)
  deriving DecidableEq, Repr

/-- What `readNext` goes through; the characters of a text are one by one. -/
inductive Token where
  | start (name : String)
  | character (c : Char)
  | other
  | close (name : String)
  deriving DecidableEq, Repr

namespace Content

def tokens : Content → List Token
  | done => []
  | text cs rest => cs.map .character ++ rest.tokens
  | other rest => .other :: rest.tokens
  | element name inside rest => .start name :: (inside.tokens ++ .close name :: rest.tokens)

/-- The names of all elements. -/
def names : Content → List String
  | done => []
  | text _ rest => rest.names
  | other rest => rest.names
  | element name inside rest => name :: (inside.names ++ rest.names)

/-- What the first element of a name contains, in document order. -/
def first (name : String) : Content → Option Content
  | done => none
  | text _ rest => rest.first name
  | other rest => rest.first name
  | element name' inside rest => if name' = name then some inside else (inside.first name).or (rest.first name)

/-- The text of a content without elements. -/
def written : Content → Option Text
  | done => some []
  | text cs rest => rest.written.map (cs ++ ·)
  | other rest => rest.written
  | element _ _ _ => none

end Content

open Content

/-- `readElementText()`: the text up to the end of the element, and the tokens
behind it; no element may start in it. -/
def readElementText : List Token → Option (Text × List Token)
  | .character c :: ts => (readElementText ts).map fun r => (c :: r.1, r.2)
  | .other :: ts => readElementText ts
  | .close _ :: ts => some ([], ts)
  | .start _ :: _ => none
  | [] => none

theorem readElementText_length {ts : List Token} {r : Text × List Token} (h : readElementText ts = some r) :
    r.2.length ≤ ts.length := by
  induction ts generalizing r with
  | nil => cases h
  | cons t ts ih =>
    rw [List.length_cons]
    cases t with
    | start name => cases h
    | character c =>
      obtain ⟨r', hr', rfl⟩ := Option.map_eq_some_iff.1 h
      have hle : r'.2.length ≤ ts.length := ih hr'
      exact Nat.le_succ_of_le hle
    | other => exact Nat.le_succ_of_le (ih h)
    | close name =>
      cases h
      exact Nat.le_succ _

theorem readElementText_text (cs : Text) (ts : List Token) :
    readElementText (cs.map .character ++ ts) = (readElementText ts).map fun r => (cs ++ r.1, r.2) := by
  induction cs with
  | nil => simp
  | cons c cs ih =>
    rw [List.map_cons, List.cons_append, readElementText, ih, Option.map_map]
    rfl

theorem readElementText_tokens {c : Content} {t : Text} (h : c.written = some t) (name : String) (ts : List Token) :
    readElementText (c.tokens ++ .close name :: ts) = some (t, ts) := by
  induction c generalizing t with
  | done =>
    cases h
    rfl
  | text cs rest ih =>
    obtain ⟨t', ht', rfl⟩ := Option.map_eq_some_iff.1 h
    rw [Content.tokens, List.append_assoc, readElementText_text, ih ht', Option.map_some]
  | other rest ih => exact ih h
  | element name' inside rest ih ih' => cases h

/-- A tag that is met is that of an element. -/
theorem mem_tokens {c : Content} {name : String} (h : .start name ∈ c.tokens ∨ .close name ∈ c.tokens) : name ∈ c.names := by
  induction c with
  | done => simp [Content.tokens] at h
  | text cs rest ih => exact ih (by simpa [Content.tokens] using h)
  | other rest ih => exact ih (by simpa [Content.tokens] using h)
  | element name' inside rest ih ih' =>
    simp only [Content.tokens, List.mem_cons, List.mem_append, Token.start.injEq, Token.close.injEq, reduceCtorEq,
      false_or] at h
    simp only [Content.names, List.mem_cons, List.mem_append]
    rcases h with (rfl | h | h) | h | rfl | h
    · exact .inl rfl
    · exact .inr (.inl (ih (.inl h)))
    · exact .inr (.inr (ih' (.inl h)))
    · exact .inr (.inl (ih (.inr h)))
    · exact .inl rfl
    · exact .inr (.inr (ih' (.inr h)))

theorem first_eq_none {c : Content} {name : String} (h : c.first name = none) : name ∉ c.names := by
  induction c with
  | done => exact List.not_mem_nil
  | text cs rest ih => exact ih h
  | other rest ih => exact ih h
  | element name' inside rest ih ih' =>
    rw [Content.first] at h
    split at h
    · cases h
    · rename_i hne
      obtain ⟨hinside, hrest⟩ := Option.or_eq_none_iff.1 h
      simp only [Content.names, List.mem_cons, List.mem_append, not_or]
      exact ⟨fun he => hne he.symm, ih hinside, ih' hrest⟩

/-- **The first element** of a name, with what comes before and behind it. -/
theorem first_split {c i : Content} {name : String} (h : c.first name = some i) :
    ∃ pre post, c.tokens = pre ++ .start name :: (i.tokens ++ .close name :: post) ∧
      .start name ∉ pre ∧ .close name ∉ pre := by
  induction c with
  | done => cases h
  | text cs rest ih =>
    obtain ⟨pre, post, htokens, hstart, hclose⟩ := ih h
    refine ⟨cs.map .character ++ pre, post, by rw [Content.tokens, htokens, List.append_assoc], ?_, ?_⟩
    · simpa using hstart
    · simpa using hclose
  | other rest ih =>
    obtain ⟨pre, post, htokens, hstart, hclose⟩ := ih h
    refine ⟨.other :: pre, post, by rw [Content.tokens, htokens, List.cons_append], ?_, ?_⟩
    · simpa using hstart
    · simpa using hclose
  | element name' inside rest ih ih' =>
    rw [Content.first] at h
    split at h
    · rename_i heq
      cases h
      exact ⟨[], rest.tokens, by rw [Content.tokens, heq, List.nil_append], List.not_mem_nil, List.not_mem_nil⟩
    · rename_i hne
      cases hinside : inside.first name with
      | some i' =>
        rw [hinside, Option.some_or] at h
        cases h
        obtain ⟨pre, post, htokens, hstart, hclose⟩ := ih hinside
        refine ⟨.start name' :: pre, post ++ .close name' :: rest.tokens, ?_, ?_, ?_⟩
        · rw [Content.tokens, htokens]
          simp
        · simpa [Ne.symm hne] using hstart
        · simpa using hclose
      | none =>
        rw [hinside, Option.none_or] at h
        obtain ⟨pre, post, htokens, hstart, hclose⟩ := ih' h
        have habsent := first_eq_none hinside
        refine ⟨.start name' :: (inside.tokens ++ .close name' :: pre), post, ?_, ?_, ?_⟩
        · rw [Content.tokens, htokens]
          simp
        · have hno : .start name ∉ inside.tokens := fun hm => habsent (mem_tokens (.inl hm))
          simp [Ne.symm hne, hno, hstart]
        · have hno : .close name ∉ inside.tokens := fun hm => habsent (mem_tokens (.inr hm))
          simp [Ne.symm hne, hno, hclose]

end NekoEcat.XmlTree
