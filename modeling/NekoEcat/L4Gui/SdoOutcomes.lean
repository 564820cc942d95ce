import NekoEcat.Core.Assoc
import NekoEcat.Core.Trace
import NekoEcat.L4Gui.SdoObjects

/-!
# One outcome for every SDO write

A write is always in one place: in `pendingSdoWrites_`, in
`pendingSdoVerifications_`, or in the history with its outcome. Steps move it on
and never copy it, as long as every download is acknowledged, no two downloads
of one object are under way and an object that is acknowledged waits for no
verification.

* `ledger`: where the writes are.
* `step_inv`: what one event keeps.
* `one_outcome`: what holds in every state of a run.
-/
namespace NekoEcat.L4.SdoWrites
open NekoEcat.QJson NekoEcat.QNumber NekoEcat.Trace NekoEcat.L4.EcatClient

/-! ## Requests -/

/-- The object a download writes: position, index, subindex. -/
def Request.download (r : Request) : Option (Int × String × String) :=
  match r.rpc with
  | .download position index subIndex _ _ => some (position, index, subIndex)
  | _ => none

/-- The object an upload reads. -/
def Request.upload (r : Request) : Option (Int × String × String) :=
  match r.rpc with
  | .upload position index subIndex => some (position, index, subIndex)
  | _ => none

def objectKey (o : Int × String × String) : String := sdoEvidenceKey o.1 o.2.1 o.2.2

def Request.downloads (r : Request) : Option String := r.download.map objectKey

def Request.uploads (r : Request) : Option String := r.upload.map objectKey

section
variable {r : Request} {position : Int} {index subIndex : String}

theorem Request.of_download {value type : String} (h : r.rpc = .download position index subIndex value type) :
    r.download = some (position, index, subIndex) ∧ r.downloads = some (sdoEvidenceKey position index subIndex) ∧
      r.uploads = none := by
  unfold Request.downloads Request.uploads Request.download Request.upload
  rw [h]
  exact ⟨rfl, rfl, rfl⟩

theorem Request.of_upload (h : r.rpc = .upload position index subIndex) :
    r.upload = some (position, index, subIndex) ∧ r.uploads = some (sdoEvidenceKey position index subIndex) ∧
      r.downloads = none := by
  unfold Request.downloads Request.uploads Request.download Request.upload
  rw [h]
  exact ⟨rfl, rfl, rfl⟩

end

/-- The object of an acknowledged download is attributed rightly, and no
verification of it is pending. -/
def Attributed (s : Window) (o : Int × String × String) : Prop :=
  s.pendingSdoVerifications.lookup (objectKey o) = none ∧ Named s.editor o.1 o.2.1 o.2.2

section
variable (uiText : String → String) (isDouble : List Char → Bool)

/-- What an event must meet: a write is sent while connected, with no download
of its object under way; no download is rejected; its acknowledgement is
attributed rightly; and the last read of an object that waits for one is not
rejected. -/
def Condition (s : Window) : Event → Prop
  | .write =>
    s.swapped = none → Passes uiText isDouble s.editor →
      s.connected = true ∧ ∀ r ∈ s.handlers, r.downloads ≠
        some (sdoEvidenceKey s.editor.selectedPosition.toInt s.editor.sdoIndex s.editor.sdoSubIndex)
  | .answer i result =>
    s.swapped = none → ∀ r ∈ s.handlers[i]?,
      (∀ o ∈ r.download, contains result "error" = false ∧ Attributed s o) ∧
        ∀ o ∈ r.upload, contains result "error" = true →
          s.pendingSdoVerifications.lookup (objectKey o) = none ∨
            ∃ r' ∈ s.handlers.eraseIdx i, r'.uploads = some (objectKey o)
  | .lost i => ∀ q ∈ s.swapped, ∀ r ∈ q[i]?, ∀ o ∈ r.download, Attributed s o
  | _ => True

end

instance (s : Window) (o : Int × String × String) : Decidable (Attributed s o) :=
  inferInstanceAs (Decidable (_ ∧ Named ..))

instance (uiText : String → String) (isDouble : List Char → Bool) (s : Window) :
    (e : Event) → Decidable (Condition uiText isDouble s e)
  | .write => inferInstanceAs (Decidable (_ → _ → _ ∧ ∀ r ∈ s.handlers, _))
  | .answer i _ => inferInstanceAs (Decidable (_ → ∀ r ∈ s.handlers[i]?, _ ∧ _))
  | .lost i => inferInstanceAs (Decidable (∀ q ∈ s.swapped, ∀ r ∈ q[i]?, ∀ o ∈ r.download, _))
  | .edit _ | .read .. | .connect | .disconnect | .connectionLost => inferInstanceAs (Decidable True)

/-! ## The invariant -/

/-- Where the writes are: each with the value it is or was judged against. -/
def ledger (s : Window) : List (Option Nat × String) :=
  s.pendingSdoWrites.map (fun e => (e.2.write, e.2.value)) ++
    (s.pendingSdoVerifications.map (fun e => (e.2.write, e.2.value)) ++
      s.outcomes.map fun o => (o.write, o.expected))

/-- A request of the window; a download is entered under its key. -/
def Entered (s : Window) (r : Request) : Prop :=
  match r.rpc with
  | .upload .. => True
  | .download position index subIndex value _ =>
    (∃ p : Int32, p.toInt = position ∧ 0 ≤ position) ∧ trim index.toList ≠ [] ∧ trim subIndex.toList ≠ [] ∧
      ':' ∉ subIndex.toList ∧
      ∃ e, s.pendingSdoWrites.lookup (sdoEvidenceKey position index subIndex) = some e ∧ e.write = r.write ∧ e.value = value
  | _ => False

/-- With `q` the requests not yet answered. -/
structure Inv (q : List Request) (s : Window) : Prop where
  keysWrites : (Assoc.keys s.pendingSdoWrites).Nodup
  keysVerifications : (Assoc.keys s.pendingSdoVerifications).Nodup
  entered : ∀ r ∈ q, Entered s r
  distinct : (q.filterMap Request.downloads).Nodup
  asked : ∀ e ∈ s.pendingSdoWrites, ∃ r ∈ q, r.downloads = some e.1
  reading : s.swapped = none → ∀ e ∈ s.pendingSdoVerifications, ∃ r ∈ q, r.uploads = some e.1
  own : ∀ w ∈ ledger s, ∃ n p, w.1 = some n ∧ s.requested[n]? = some p ∧ w.2 = p.value
  account : ∀ n < s.requested.length, (ledger s).countP (fun w => w.1 == some n) = 1
  offline : s.connected = false → s.handlers = []
  swapping : s.swapped ≠ none → s.connected = false

/-- The requests not yet answered. -/
def unanswered (s : Window) : List Request := s.handlers ++ s.swapped.getD []

theorem Inv.perm {q q' : List Request} {s : Window} (h : Inv q s) (hq : q.Perm q') : Inv q' s where
  keysWrites := h.keysWrites
  keysVerifications := h.keysVerifications
  entered r hr := h.entered r (hq.mem_iff.2 hr)
  distinct := (hq.filterMap _).nodup_iff.1 h.distinct
  asked e he := by
    obtain ⟨r, hr, hk⟩ := h.asked e he
    exact ⟨r, hq.mem_iff.1 hr, hk⟩
  reading hs e he := by
    obtain ⟨r, hr, hk⟩ := h.reading hs e he
    exact ⟨r, hq.mem_iff.1 hr, hk⟩
  own := h.own
  account := h.account
  offline := h.offline
  swapping := h.swapping

theorem initial_inv (editor : Editor) : Inv [] (initial editor) where
  keysWrites := List.nodup_nil
  keysVerifications := List.nodup_nil
  entered _ h := by cases h
  distinct := List.nodup_nil
  asked _ h := by cases h
  reading _ _ h := by cases h
  own _ h := by cases h
  account _ h := by cases h
  offline _ := rfl
  swapping h := absurd rfl h

/-! ## Closures -/

/-- An error result ends the closure of an upload or download. -/
theorem body_error {r : Rpc} (hr : (∃ p i j, r = .upload p i j) ∨ ∃ p i j v t, r = .download p i j v t)
    {result : QJsonObject} (h : contains result "error" = true) : r.body result = [] := by
  obtain ⟨p, i, j, rfl⟩ | ⟨p, i, j, v, t, rfl⟩ := hr
  · exact if_pos h
  · exact if_pos h

theorem send_eq (s : Window) (rpc : Rpc) (write : Option Nat) :
    send s rpc write = { s with handlers := s.handlers ++ if s.connected then [⟨rpc, write⟩] else [] } := by
  unfold send
  split
  · rfl
  · rw [List.append_nil]

/-- A read adds an upload, if anything. -/
theorem requestSdoRead_eq (s : Window) (position : Int) (index subIndex : String) :
    ∃ extra, requestSdoRead s position index subIndex = { s with handlers := s.handlers ++ extra } ∧
      (∀ x ∈ extra, ∃ p i j, x.rpc = .upload p i j) ∧ (s.connected = false → extra = []) := by
  unfold requestSdoRead
  dsimp only
  split
  · exact ⟨[], by rw [List.append_nil], by simp, fun _ => rfl⟩
  · refine ⟨_, send_eq .., ?_, fun hc => by rw [hc]; rfl⟩
    intro x hx
    split at hx
    · rw [List.mem_singleton.1 hx]
      exact ⟨_, _, _, rfl⟩
    · cases hx

/-- The entry of the download is moved on, and its object is read. -/
theorem commandSucceeded_eq {s : Window} {write : Option Nat} {message key : String} {e : Pending}
    (hm : "SDO download complete".toList <+: message.toList) (hkey : completedKey s.editor message = key)
    (he : s.pendingSdoWrites.lookup key = some e) :
    ∃ position index subIndex extra, (∀ x ∈ extra, ∃ p i j, x.rpc = .upload p i j) ∧ (s.connected = false → extra = []) ∧
      commandSucceeded s write message =
        { s with
          pendingSdoWrites := hashRemove s.pendingSdoWrites key
          pendingSdoVerifications :=
            hashInsert s.pendingSdoVerifications key ⟨write, position, index, subIndex, e.type, e.value⟩
          handlers := s.handlers ++ extra } := by
  unfold commandSucceeded
  rw [if_pos (List.isPrefixOf_iff_prefix.2 hm)]
  unfold completedKey at hkey
  generalize completedObject s.editor message = o at hkey ⊢
  obtain ⟨position, index, subIndex⟩ := o
  dsimp only at hkey ⊢
  rw [hkey, he]
  simp only [Option.isNone_some, Bool.false_eq_true, if_false, Option.some_or, Option.map_some, Option.getD_some]
  obtain ⟨extra, hread, hup, hoff⟩ := requestSdoRead_eq
    { s with
      pendingSdoWrites := hashRemove s.pendingSdoWrites key
      pendingSdoVerifications :=
        hashInsert s.pendingSdoVerifications key ⟨write, position, index, subIndex, e.type, e.value⟩ }
    ((toInt 10 position.toList).getD 0) index subIndex
  exact ⟨position, index, subIndex, extra, hup, hoff, hread⟩

/-- **An acknowledgement**: the write is moved on, with its own value, and its
object is read. -/
theorem acknowledge_eq {s : Window} {r : Request} {position : Int} {index subIndex value type : String}
    (hr : r.rpc = .download position index subIndex value type) {result : QJsonObject}
    (herr : contains result "error" = false) (hent : Entered s r) (hname : Named s.editor position index subIndex) :
    ∃ (v : Pending) (extra : List Request), v.write = r.write ∧ v.value = value ∧
      (∀ x ∈ extra, ∃ p i j, x.rpc = .upload p i j) ∧
      (s.connected = true → ∃ x ∈ extra, x.uploads = some (sdoEvidenceKey position index subIndex)) ∧
      (s.connected = false → extra = []) ∧
      invoke s r result =
        { s with
          pendingSdoWrites := hashRemove s.pendingSdoWrites (sdoEvidenceKey position index subIndex)
          pendingSdoVerifications := hashInsert s.pendingSdoVerifications (sdoEvidenceKey position index subIndex) v
          handlers := s.handlers ++ extra } := by
  unfold Entered at hent
  rw [hr] at hent
  obtain ⟨⟨p, rfl, hp⟩, hi, hs, hcolon, e, he, hw, hv⟩ := hent
  have hkey := completed_named hp hname hi hs hcolon
  have hprefix : "SDO download complete".toList <+: (completeMessage p.toInt index subIndex).toList := by
    obtain ⟨n, hn⟩ := Int.eq_ofNat_of_zero_le hp
    rw [hn, completeMessage_toList]
    exact List.prefix_append ..
  obtain ⟨pos, i, j, extra, hup, hoff, heq⟩ := @commandSucceeded_eq s r.write _ _ e hprefix hkey he
  have hbody : r.rpc.body result = [.emit (.commandSucceeded (completeMessage p.toInt index subIndex)),
      (Rpc.upload p.toInt index subIndex).act] := by
    rw [hr]
    exact if_neg (by rw [herr]; exact Bool.false_ne_true)
  have hinvoke : invoke s r result =
      send (commandSucceeded s r.write (completeMessage p.toInt index subIndex)) (.upload p.toInt index subIndex) none := by
    unfold invoke
    rw [hbody, List.foldl_cons, List.foldl_cons, List.foldl_nil, Rpc.act, runAct, runAct]
  refine ⟨⟨r.write, pos, i, j, e.type, e.value⟩,
    extra ++ if s.connected then [⟨.upload p.toInt index subIndex, none⟩] else [], rfl, hv, ?_, ?_, ?_, ?_⟩
  · intro x hx
    obtain hx | hx := List.mem_append.1 hx
    · exact hup x hx
    · split at hx
      · rw [List.mem_singleton.1 hx]
        exact ⟨_, _, _, rfl⟩
      · cases hx
  · intro hc
    rw [if_pos hc]
    exact ⟨_, List.mem_append_right _ (List.mem_singleton_self _), rfl⟩
  · intro hc
    rw [hoff hc, hc]
    rfl
  · rw [hinvoke, heq, send_eq]
    simp only [List.append_assoc]

/-! ## What the closures keep -/

theorem hashRemove_eq (m : List (String × Pending)) (k : String) : hashRemove m k = Assoc.remove m k := rfl

theorem keys_remove_nodup {m : List (String × Pending)} (h : (Assoc.keys m).Nodup) (k : String) :
    (Assoc.keys (Assoc.remove m k)).Nodup :=
  Assoc.keys_filter_nodup h _

theorem keys_insert_nodup {m : List (String × Pending)} (h : (Assoc.keys m).Nodup) (k : String) (v : Pending) :
    (Assoc.keys (hashInsert m k v)).Nodup := by
  refine List.nodup_cons.2 ⟨fun hk => ?_, keys_remove_nodup h k⟩
  obtain ⟨e, he, hek⟩ := List.mem_map.1 hk
  exact (Assoc.mem_remove.1 he).2 hek

/-- The downloads of other requests. -/
theorem downloads_ne {r : Request} {q : List Request} (h : ((r :: q).filterMap Request.downloads).Nodup) {k : String}
    (hk : r.downloads = some k) : ∀ x ∈ q, x.downloads ≠ some k := by
  rw [List.filterMap_cons_some hk, List.nodup_cons] at h
  intro x hx hxk
  exact h.1 (List.mem_filterMap.2 ⟨x, hx, hxk⟩)

theorem filterMap_tail_nodup {r : Request} {q : List Request} (h : ((r :: q).filterMap Request.downloads).Nodup) :
    (q.filterMap Request.downloads).Nodup :=
  h.sublist ((List.sublist_cons_self r q).filterMap _)

/-- Uploads add no download. -/
theorem filterMap_uploads {q extra : List Request} (h : ∀ x ∈ extra, ∃ p i j, x.rpc = .upload p i j) :
    (q ++ extra).filterMap Request.downloads = q.filterMap Request.downloads := by
  have hnil : extra.filterMap Request.downloads = [] := by
    rw [List.filterMap_eq_nil_iff]
    intro x hx
    obtain ⟨p, i, j, hr⟩ := h x hx
    exact (Request.of_upload hr).2.2
  rw [List.filterMap_append, hnil, List.append_nil]

theorem entered_upload {s : Window} {r : Request} {p : Int} {i j : String} (h : r.rpc = .upload p i j) : Entered s r := by
  unfold Entered
  rw [h]
  trivial

/-- What a request needs of the window is its own entry. -/
theorem Entered.mono {s s' : Window} {r : Request} (h : Entered s r)
    (hlook : ∀ k, r.downloads = some k → s'.pendingSdoWrites.lookup k = s.pendingSdoWrites.lookup k) : Entered s' r := by
  unfold Entered at h ⊢
  cases hr : r.rpc with
  | download p i j v t =>
    rw [hr] at h
    dsimp only at h ⊢
    rw [hlook _ (Request.of_download hr).2.1]
    exact h
  | upload p i j => trivial
  | _ => rw [hr] at h; exact h

/-- Moving entries and outcomes about keeps every write in one place. -/
theorem own_of_perm {q : List Request} {s s' : Window} (h : Inv q s) (hl : (ledger s').Perm (ledger s))
    (hreq : s'.requested = s.requested) :
    ∀ w ∈ ledger s', ∃ n p, w.1 = some n ∧ s'.requested[n]? = some p ∧ w.2 = p.value := by
  intro w hw
  rw [hreq]
  exact h.own w (hl.mem_iff.1 hw)

theorem account_of_perm {q : List Request} {s s' : Window} (h : Inv q s) (hl : (ledger s').Perm (ledger s))
    (hreq : s'.requested = s.requested) :
    ∀ n < s'.requested.length, (ledger s').countP (fun w => w.1 == some n) = 1 := by
  intro n hn
  rw [hl.countP_eq]
  exact h.account n (hreq ▸ hn)

/-- **An acknowledged write is kept.** -/
theorem acknowledge_inv {s : Window} {r : Request} {q : List Request} {position : Int} {index subIndex value type : String}
    {result : QJsonObject} (h : Inv (r :: q) s) (hr : r.rpc = .download position index subIndex value type)
    (herr : contains result "error" = false) (hattr : Attributed s (position, index, subIndex))
    (hconn : s.swapped = none → s.connected = true) :
    ∃ extra, (invoke s r result).handlers = s.handlers ++ extra ∧ (invoke s r result).swapped = s.swapped ∧
      Inv (q ++ extra) (invoke s r result) := by
  have hent := h.entered r List.mem_cons_self
  obtain ⟨v, extra, hw, hv, hup, hread, hoff, heq⟩ := acknowledge_eq hr herr hent hattr.2
  generalize hk : sdoEvidenceKey position index subIndex = k at heq hread
  have hdown : r.downloads = some k := by rw [(Request.of_download hr).2.1, hk]
  have hne := downloads_ne h.distinct hdown
  obtain ⟨e, he, hew, hev⟩ : ∃ e, s.pendingSdoWrites.lookup k = some e ∧ e.write = r.write ∧ e.value = value := by
    unfold Entered at hent
    rw [hr] at hent
    rw [← hk]
    exact hent.2.2.2.2
  have hnone : s.pendingSdoVerifications.lookup k = none := hk ▸ hattr.1
  have hV : hashInsert s.pendingSdoVerifications k v = (k, v) :: s.pendingSdoVerifications := by
    rw [hashInsert, hashRemove_eq, Assoc.remove_eq_self hnone]
  have hW := Assoc.perm_remove h.keysWrites he
  have hledger : (ledger (invoke s r result)).Perm (ledger s) := by
    rw [heq]
    unfold ledger
    dsimp only
    rw [hV, List.map_cons, hw, hv, ← hew, ← hev, hashRemove_eq]
    refine List.perm_middle.trans ?_
    exact (hW.map (fun e : String × Pending => (e.2.write, e.2.value))).symm.append_right _
  refine ⟨extra, by rw [heq], by rw [heq], ?_⟩
  have hreq : (invoke s r result).requested = s.requested := by rw [heq]
  refine ⟨?_, ?_, ?_, ?_, ?_, ?_, own_of_perm h hledger hreq, account_of_perm h hledger hreq, ?_, ?_⟩
  · rw [heq]
    exact keys_remove_nodup h.keysWrites k
  · rw [heq]
    exact keys_insert_nodup h.keysVerifications k v
  · intro x hx
    obtain hx | hx := List.mem_append.1 hx
    · refine (h.entered x (List.mem_cons_of_mem _ hx)).mono fun k' hk' => ?_
      have hkk : k' ≠ k := by
        rintro rfl
        exact hne x hx hk'
      rw [heq, hashRemove_eq]
      dsimp only
      rw [Assoc.lookup_remove, if_neg hkk]
    · obtain ⟨p, i, j, hxr⟩ := hup x hx
      exact entered_upload hxr
  · rw [filterMap_uploads hup]
    exact filterMap_tail_nodup h.distinct
  · rw [heq]
    intro e' he'
    obtain ⟨hmem, hek⟩ := Assoc.mem_remove.1 he'
    obtain ⟨x, hx, hxk⟩ := h.asked e' hmem
    obtain rfl | hx := List.mem_cons.1 hx
    · rw [hdown, Option.some.injEq] at hxk
      exact absurd hxk.symm hek
    · exact ⟨x, List.mem_append_left _ hx, hxk⟩
  · rw [heq]
    dsimp only
    rw [hV]
    intro hs e' he'
    obtain rfl | he' := List.mem_cons.1 he'
    · obtain ⟨x, hx, hxk⟩ := hread (hconn hs)
      exact ⟨x, List.mem_append_right _ hx, hxk⟩
    · obtain ⟨x, hx, hxk⟩ := h.reading hs e' he'
      obtain rfl | hx := List.mem_cons.1 hx
      · rw [(Request.of_download hr).2.2] at hxk
        cases hxk
      · exact ⟨x, List.mem_append_left _ hx, hxk⟩
  · rw [heq]
    intro hc
    dsimp only
    rw [h.offline hc, hoff hc]
    rfl
  · rw [heq]
    exact h.swapping

/-- A value judges the write that waits for it, if any. -/
theorem handleSdoValueResponse_cases (s : Window) (position : Int) (index subIndex value : String) :
    s.pendingSdoVerifications.lookup (sdoEvidenceKey position index subIndex) = none ∧
        handleSdoValueResponse s position index subIndex value = s ∨
      ∃ v final, s.pendingSdoVerifications.lookup (sdoEvidenceKey position index subIndex) = some v ∧
        handleSdoValueResponse s position index subIndex value =
          { s with
            pendingSdoVerifications := hashRemove s.pendingSdoVerifications (sdoEvidenceKey position index subIndex)
            outcomes := s.outcomes ++ [⟨v.write, final, v.value⟩] } := by
  unfold handleSdoValueResponse
  cases h : s.pendingSdoVerifications.lookup (sdoEvidenceKey position index subIndex) with
  | none => exact .inl ⟨rfl, by simp [h]⟩
  | some v => exact .inr ⟨v, _, rfl, by simp only [h]; rfl⟩

/-- **A value that was read is kept**: its object waits for nothing more. -/
theorem value_inv {s : Window} {r : Request} {q : List Request} {position : Int} {index subIndex : String} (value : String)
    (h : Inv (r :: q) s) (hr : r.rpc = .upload position index subIndex) :
    Inv q (handleSdoValueResponse s position index subIndex value) := by
  obtain ⟨-, hup, hdown⟩ := Request.of_upload hr
  have hasked : ∀ e ∈ s.pendingSdoWrites, ∃ x ∈ q, x.downloads = some e.1 := by
    intro e he
    obtain ⟨x, hx, hxk⟩ := h.asked e he
    obtain rfl | hx := List.mem_cons.1 hx
    · rw [hdown] at hxk
      cases hxk
    · exact ⟨x, hx, hxk⟩
  have hreading : s.swapped = none → ∀ e ∈ s.pendingSdoVerifications, e.1 ≠ sdoEvidenceKey position index subIndex →
      ∃ x ∈ q, x.uploads = some e.1 := by
    intro hs e he hek
    obtain ⟨x, hx, hxk⟩ := h.reading hs e he
    obtain rfl | hx := List.mem_cons.1 hx
    · rw [hup, Option.some.injEq] at hxk
      exact absurd hxk.symm hek
    · exact ⟨x, hx, hxk⟩
  obtain ⟨hnone, heq⟩ | ⟨v, final, hsome, heq⟩ := handleSdoValueResponse_cases s position index subIndex value
  · rw [heq]
    exact ⟨h.keysWrites, h.keysVerifications, fun x hx => h.entered x (List.mem_cons_of_mem _ hx),
      filterMap_tail_nodup h.distinct, hasked, fun hs e he => hreading hs e he (Assoc.lookup_eq_none.1 hnone e he), h.own,
      h.account, h.offline, h.swapping⟩
  · have hledger : (ledger (handleSdoValueResponse s position index subIndex value)).Perm (ledger s) := by
      have hV := (Assoc.perm_remove h.keysVerifications hsome).map fun e : String × Pending => (e.2.write, e.2.value)
      rw [heq]
      unfold ledger
      dsimp only
      refine List.Perm.append_left _ ?_
      rw [hashRemove_eq, List.map_append, ← List.append_assoc]
      refine (List.perm_append_comm).trans ?_
      exact (hV.symm.append_right (s.outcomes.map fun o => (o.write, o.expected)))
    have hreq : (handleSdoValueResponse s position index subIndex value).requested = s.requested := by rw [heq]
    refine ⟨?_, ?_, ?_, ?_, ?_, ?_, own_of_perm h hledger hreq, account_of_perm h hledger hreq, ?_, ?_⟩
    · rw [heq]
      exact h.keysWrites
    · rw [heq]
      exact keys_remove_nodup h.keysVerifications _
    · rw [heq]
      exact fun x hx => (h.entered x (List.mem_cons_of_mem _ hx)).mono fun _ _ => rfl
    · exact filterMap_tail_nodup h.distinct
    · rw [heq]
      exact hasked
    · rw [heq]
      intro hs e he
      obtain ⟨hmem, hek⟩ := Assoc.mem_remove.1 he
      exact hreading hs e hmem hek
    · rw [heq]
      exact h.offline
    · rw [heq]
      exact h.swapping

/-- **A rejected upload is kept**, if its object waits for nothing or for
another upload. -/
theorem rejected_inv {s : Window} {r : Request} {q : List Request} {position : Int} {index subIndex : String}
    (h : Inv (r :: q) s) (hr : r.rpc = .upload position index subIndex)
    (hlast : s.pendingSdoVerifications.lookup (sdoEvidenceKey position index subIndex) = none ∨
      ∃ r' ∈ q, r'.uploads = some (sdoEvidenceKey position index subIndex)) : Inv q s := by
  refine ⟨h.keysWrites, h.keysVerifications, fun x hx => h.entered x (List.mem_cons_of_mem _ hx),
    filterMap_tail_nodup h.distinct, ?_, ?_, h.own, h.account, h.offline, h.swapping⟩
  · intro e he
    obtain ⟨x, hx, hxk⟩ := h.asked e he
    obtain rfl | hx := List.mem_cons.1 hx
    · rw [(Request.of_upload hr).2.2] at hxk
      cases hxk
    · exact ⟨x, hx, hxk⟩
  · intro hs e he
    obtain ⟨x, hx, hxk⟩ := h.reading hs e he
    obtain rfl | hx := List.mem_cons.1 hx
    · rw [(Request.of_upload hr).2.1] at hxk
      obtain hnone | ⟨r', hr', hk⟩ := hlast
      · exact absurd (Option.some.inj hxk).symm (Assoc.lookup_eq_none.1 hnone e he)
      · exact ⟨r', hr', hk.trans hxk⟩
    · exact ⟨x, hx, hxk⟩

/-! ## What events keep -/

section
variable {uiText : String → String} {isDouble : List Char → Bool}

/-- What the checks say about the texts of a write. -/
theorem passes_texts {e : Editor} (h : Passes uiText isDouble e) :
    0 ≤ e.selectedPosition.toInt ∧ trim e.sdoIndex.toList ≠ [] ∧ trim e.sdoSubIndex.toList ≠ [] ∧
      ':' ∉ e.sdoSubIndex.toList := by
  obtain ⟨-, hpos, herr⟩ := h
  have haddress : SdoValidation.indexErrors uiText e.sdoIndex.toList = [] ∧
      SdoValidation.subIndexErrors uiText e.sdoSubIndex.toList = [] := by
    unfold SdoValidation.validate at herr
    dsimp only at herr
    split at herr
    · simp at herr
    · rw [List.append_eq_nil_iff, List.append_eq_nil_iff] at herr
      exact herr.1
  obtain ⟨n, hn, -⟩ := SdoValidation.addressErrors_eq_nil_iff.1 haddress.1
  obtain ⟨m, hm, -⟩ := SdoValidation.addressErrors_eq_nil_iff.1 haddress.2
  have hnonneg : 0 ≤ e.selectedPosition.toInt := by
    rw [Int32.lt_iff_toInt_lt, Int32.toInt_zero] at hpos
    omega
  exact ⟨hnonneg, trim_ne_nil hn, trim_ne_nil hm, colon_not_mem hm⟩

/-- **A write is entered**: one more, in its place. -/
theorem enter_inv {s s' : Window} {r : Request} {k : String} {pend : Pending} (h : Inv s.handlers s)
    (hconn : s.connected = true) (hfree : ∀ x ∈ s.handlers, x.downloads ≠ some k) (hdown : r.downloads = some k)
    (hent : s'.pendingSdoWrites.lookup k = some pend → Entered s' r) (hpend : pend.write = some s.requested.length)
    (hs' : s' = { s with
      pendingSdoWrites := hashInsert s.pendingSdoWrites k pend
      requested := s.requested ++ [pend]
      handlers := s.handlers ++ [r] }) : Inv (s.handlers ++ [r]) s' := by
  have hnone : s.pendingSdoWrites.lookup k = none := by
    rw [Assoc.lookup_eq_none]
    intro e he hek
    obtain ⟨x, hx, hxk⟩ := h.asked e he
    exact hfree x hx (hek ▸ hxk)
  have hW : hashInsert s.pendingSdoWrites k pend = (k, pend) :: s.pendingSdoWrites := by
    rw [hashInsert, hashRemove_eq, Assoc.remove_eq_self hnone]
  rw [hW] at hs'
  have hledger : ledger s' = (some s.requested.length, pend.value) :: ledger s := by
    rw [hs', ← hpend]
    rfl
  -- no other write has the number of this one
  have hother : ∀ w ∈ ledger s, w.1 ≠ some s.requested.length := by
    intro w hw hwn
    obtain ⟨n, p, hn, hpn, -⟩ := h.own w hw
    have hlt := (List.getElem?_eq_some_iff.1 hpn).1
    rw [hn, Option.some.injEq] at hwn
    omega
  refine ⟨?_, ?_, ?_, ?_, ?_, ?_, ?_, ?_, ?_, ?_⟩
  · rw [hs']
    refine List.nodup_cons.2 ⟨fun hmem => ?_, h.keysWrites⟩
    obtain ⟨e, he, hek⟩ := List.mem_map.1 hmem
    exact Assoc.lookup_eq_none.1 hnone e he hek
  · rw [hs']
    exact h.keysVerifications
  · intro x hx
    obtain hx | hx := List.mem_append.1 hx
    · refine (h.entered x hx).mono fun k' hk' => ?_
      have hkk : k' ≠ k := by
        rintro rfl
        exact hfree x hx hk'
      rw [hs']
      dsimp only
      rw [List.lookup_cons, beq_eq_false_iff_ne.2 hkk]
    · rw [List.mem_singleton.1 hx]
      refine hent ?_
      rw [hs']
      dsimp only
      rw [List.lookup_cons, beq_self_eq_true]
  · rw [List.filterMap_append, List.filterMap_cons_some hdown, List.filterMap_nil, List.nodup_append]
    refine ⟨h.distinct, List.nodup_singleton k, ?_⟩
    intro k' hk' k'' hk'' hkk
    obtain ⟨x, hx, hxk⟩ := List.mem_filterMap.1 hk'
    rw [List.mem_singleton] at hk''
    exact hfree x hx (hxk.trans (by rw [hkk, hk'']))
  · rw [hs']
    intro e he
    obtain rfl | he := List.mem_cons.1 he
    · exact ⟨r, by simp, hdown⟩
    · obtain ⟨x, hx, hxk⟩ := h.asked e he
      exact ⟨x, List.mem_append_left _ hx, hxk⟩
  · rw [hs']
    intro hsw e he
    obtain ⟨x, hx, hxk⟩ := h.reading hsw e he
    exact ⟨x, List.mem_append_left _ hx, hxk⟩
  · intro w hw
    rw [hledger, List.mem_cons] at hw
    rw [hs']
    dsimp only
    obtain rfl | hw := hw
    · exact ⟨_, pend, rfl, List.getElem?_concat_length, rfl⟩
    · obtain ⟨n, p, hn, hpn, hv⟩ := h.own w hw
      exact ⟨n, p, hn, by rw [List.getElem?_append_left (List.getElem?_eq_some_iff.1 hpn).1, hpn], hv⟩
  · rw [hledger, hs']
    intro n hn
    rw [List.length_append, List.length_singleton] at hn
    by_cases heq : n = s.requested.length
    · have hzero : (ledger s).countP (fun w => w.1 == some n) = 0 := by
        rw [List.countP_eq_zero]
        intro w hw
        rw [heq, beq_iff_eq]
        exact hother w hw
      rw [List.countP_cons_of_pos (by rw [heq]; exact beq_self_eq_true _), hzero]
    · rw [List.countP_cons_of_neg (by simpa using Ne.symm heq)]
      exact h.account n (by omega)
  · rw [hs']
    intro hc
    rw [hconn] at hc
    cases hc
  · rw [hs']
    exact h.swapping

theorem unanswered_eq {s : Window} (hs : s.swapped = none) : unanswered s = s.handlers := by
  unfold unanswered
  rw [hs]
  exact List.append_nil _

theorem write_inv {s : Window} (h : Inv (unanswered s) s) (hs : s.swapped = none)
    (hc : Condition uiText isDouble s .write) :
    Inv (unanswered (writeCurrentSdo uiText isDouble s)) (writeCurrentSdo uiText isDouble s) := by
  by_cases hp : Passes uiText isDouble s.editor
  · obtain ⟨hconn, hfree⟩ := hc hs hp
    obtain ⟨hpos, hi, hj, hcolon⟩ := passes_texts hp
    rw [unanswered_eq hs] at h
    unfold writeCurrentSdo
    rw [if_pos hp]
    dsimp only
    rw [send_eq, if_pos hconn, unanswered_eq (by exact hs)]
    refine enter_inv (s := s) h hconn hfree rfl (fun hlook => ?_) rfl rfl
    exact ⟨⟨_, rfl, hpos⟩, hi, hj, hcolon, _, hlook, rfl, rfl⟩
  · unfold writeCurrentSdo
    rw [if_neg hp]
    exact h

theorem read_inv {s : Window} (h : Inv (unanswered s) s) (hs : s.swapped = none) (position : Int) (index subIndex : String) :
    Inv (unanswered (requestSdoRead s position index subIndex)) (requestSdoRead s position index subIndex) := by
  obtain ⟨extra, heq, hup, hoff⟩ := requestSdoRead_eq s position index subIndex
  rw [heq, unanswered_eq (by exact hs)]
  rw [unanswered_eq hs] at h
  refine ⟨h.keysWrites, h.keysVerifications, ?_, ?_, ?_, ?_, h.own, h.account, ?_, h.swapping⟩
  · intro x hx
    obtain hx | hx := List.mem_append.1 hx
    · exact (h.entered x hx).mono fun _ _ => rfl
    · obtain ⟨p, i, j, hr⟩ := hup x hx
      exact entered_upload hr
  · rw [filterMap_uploads hup]
    exact h.distinct
  · intro e he
    obtain ⟨x, hx, hxk⟩ := h.asked e he
    exact ⟨x, List.mem_append_left _ hx, hxk⟩
  · intro hsw e he
    obtain ⟨x, hx, hxk⟩ := h.reading hsw e he
    exact ⟨x, List.mem_append_left _ hx, hxk⟩
  · intro hc
    dsimp only
    rw [h.offline hc, hoff hc]
    rfl

/-- **A flushed write is kept**: its outcome is that it failed. -/
theorem flush_inv {s : Window} (h : Inv [] s) :
    Inv [] { flushPendingSdoState s with swapped := none } := by
  have hledger : (ledger { flushPendingSdoState s with swapped := none }).Perm (ledger s) := by
    unfold ledger flushPendingSdoState
    simp only [List.map_nil, List.nil_append, List.map_append, List.map_map, Function.comp_def, List.append_assoc]
    refine List.perm_append_comm.trans ?_
    rw [List.append_assoc]
  refine ⟨List.nodup_nil, List.nodup_nil, ?_, List.nodup_nil, ?_, ?_, own_of_perm h hledger rfl,
    account_of_perm h hledger rfl, h.offline, ?_⟩
  · intro x hx
    cases hx
  · intro e he
    cases he
  · intro hsw e he
    cases he
  · intro hsw
    exact absurd rfl hsw

/-- The closure of an answered or lost request. -/
theorem invoke_inv {s : Window} {r : Request} {q : List Request} {result : QJsonObject} (h : Inv (r :: q) s)
    (hconn : s.swapped = none → s.connected = true)
    (hdown : ∀ p i j v t, r.rpc = .download p i j v t → contains result "error" = false ∧ Attributed s (p, i, j))
    (hup : ∀ p i j, r.rpc = .upload p i j → contains result "error" = true →
      s.pendingSdoVerifications.lookup (sdoEvidenceKey p i j) = none ∨ ∃ r' ∈ q, r'.uploads = some (sdoEvidenceKey p i j)) :
    ∃ extra, (invoke s r result).handlers = s.handlers ++ extra ∧ (invoke s r result).swapped = s.swapped ∧
      Inv (q ++ extra) (invoke s r result) := by
  have hent := h.entered r List.mem_cons_self
  unfold Entered at hent
  cases hr : r.rpc with
  | download p i j v t =>
    obtain ⟨herr, hattr⟩ := hdown _ _ _ _ _ hr
    exact acknowledge_inv h hr herr hattr hconn
  | upload p i j =>
    by_cases herr : contains result "error" = true
    · have heq : invoke s r result = s := by
        unfold invoke
        rw [body_error (.inl ⟨p, i, j, hr⟩) herr]
        rfl
      rw [heq]
      exact ⟨[], (List.append_nil _).symm, rfl, by
        rw [List.append_nil]
        exact rejected_inv h hr (hup _ _ _ hr herr)⟩
    · have heq : invoke s r result = handleSdoValueResponse s p i j (text result "value") := by
        unfold invoke
        have hbody : r.rpc.body result = [.emit (.sdoValue p i j (text result "value"))] := by
          rw [hr]
          exact if_neg herr
        rw [hbody]
        rfl
      rw [heq]
      refine ⟨[], ?_, ?_, ?_⟩
      · obtain ⟨-, he⟩ | ⟨v, final, -, he⟩ := handleSdoValueResponse_cases s p i j (text result "value")
        · rw [he, List.append_nil]
        · rw [he, List.append_nil]
      · obtain ⟨-, he⟩ | ⟨v, final, -, he⟩ := handleSdoValueResponse_cases s p i j (text result "value")
        · rw [he]
        · rw [he]
      · rw [List.append_nil]
        exact value_inv _ h hr
  | _ => rw [hr] at hent; exact hent.elim

theorem perm_eraseIdx {q : List Request} {i : Nat} {r : Request} (h : q[i]? = some r) :
    q.Perm (r :: q.eraseIdx i) := by
  obtain ⟨hi, rfl⟩ := List.getElem?_eq_some_iff.1 h
  exact (List.getElem_cons_eraseIdx_perm hi).symm

/-- A request is answered. -/
theorem answer_inv {s : Window} (h : Inv (unanswered s) s) (hs : s.swapped = none) {i : Nat} {r : Request}
    (hr : s.handlers[i]? = some r) {result : QJsonObject} (hc : Condition uiText isDouble s (.answer i result)) :
    Inv (unanswered (invoke { s with handlers := s.handlers.eraseIdx i } r result))
      (invoke { s with handlers := s.handlers.eraseIdx i } r result) := by
  obtain ⟨hdown, hup⟩ := hc hs r hr
  rw [unanswered_eq hs] at h
  have hq := h.perm (perm_eraseIdx hr)
  have hconn : s.connected = true := by
    by_contra hoff
    rw [h.offline (by simpa using hoff)] at hr
    cases hr
  have hbefore : Inv (r :: s.handlers.eraseIdx i) { s with handlers := s.handlers.eraseIdx i } :=
    { hq with
      entered := fun x hx => (hq.entered x hx).mono fun _ _ => rfl
      offline := fun hoff => absurd (hconn.symm.trans hoff) (by decide) }
  obtain ⟨extra, hh, hsw, hinv⟩ := @invoke_inv _ r _ result hbefore (fun _ => hconn)
    (fun p i j v t hrpc => hdown (p, i, j) (Request.of_download hrpc).1)
    (fun p i j hrpc => hup (p, i, j) (Request.of_upload hrpc).1)
  rw [unanswered_eq (hsw.trans hs), hh]
  exact hinv

/-- A closure is called because the connection was lost. -/
theorem lost_inv {s : Window} (h : Inv (unanswered s) s) {q : List Request} (hs : s.swapped = some q) {i : Nat}
    {r : Request} (hr : q[i]? = some r) (hc : Condition uiText isDouble s (.lost i)) :
    Inv (unanswered (invoke { s with swapped := some (q.eraseIdx i) } r lostResult))
      (invoke { s with swapped := some (q.eraseIdx i) } r lostResult) := by
  have hdown := hc q hs r hr
  have hoff : s.connected = false := h.swapping (by rw [hs]; exact Option.some_ne_none q)
  have hnil := h.offline hoff
  have hun : unanswered s = q := by
    unfold unanswered
    rw [hs, hnil]
    rfl
  rw [hun] at h
  have hq := h.perm (perm_eraseIdx hr)
  have hbefore : Inv (r :: q.eraseIdx i) { s with swapped := some (q.eraseIdx i) } :=
    { hq with
      entered := fun x hx => (hq.entered x hx).mono fun _ _ => rfl
      reading := fun hsw => by cases hsw
      swapping := fun _ => hoff }
  have hnoError : contains lostResult "error" = false := by decide +kernel
  obtain ⟨extra, hh, hsw, hinv⟩ := @invoke_inv _ r _ lostResult hbefore (fun hsw => by cases hsw)
    (fun p i j v t hrpc => ⟨hnoError, hdown (p, i, j) (Request.of_download hrpc).1⟩)
    (fun p i j _ herr => by rw [hnoError] at herr; cases herr)
  refine hinv.perm ?_
  unfold unanswered
  rw [hh, hsw]
  dsimp only
  rw [hnil, List.nil_append]
  exact List.perm_append_comm

/-- **What one event keeps.** -/
theorem step_inv {s : Window} {e : Event} (h : Inv (unanswered s) s) (hc : Condition uiText isDouble s e) :
    Inv (unanswered (step uiText isDouble s e)) (step uiText isDouble s e) := by
  cases e with
  | edit editor =>
    exact { h with entered := fun x hx => (h.entered x hx).mono fun _ _ => rfl }
  | write =>
    simp only [step]
    split
    · exact write_inv h (by simpa using ‹s.swapped.isNone = true›) hc
    · exact h
  | read position index subIndex =>
    simp only [step]
    split
    · exact read_inv h (by simpa using ‹s.swapped.isNone = true›) position index subIndex
    · exact h
  | answer i result =>
    simp only [step]
    split
    · exact answer_inv h ‹_› ‹_› hc
    · exact h
  | connect =>
    simp only [step]
    split
    · have hs : s.swapped = none := by simpa using ‹s.swapped.isNone = true›
      exact { h with
        entered := fun x hx => (h.entered x hx).mono fun _ _ => rfl
        offline := fun hoff => by cases hoff
        swapping := fun hsw => absurd hs hsw }
    · exact h
  | disconnect =>
    simp only [step]
    split
    · have hs : s.swapped = none := by simpa using ‹s.swapped.isNone = true›
      rw [unanswered_eq hs] at h
      exact { h with
        entered := fun x hx => (h.entered x hx).mono fun _ _ => rfl
        reading := fun hsw => by cases hsw
        offline := fun _ => rfl
        swapping := fun _ => rfl }
    · exact h
  | lost i =>
    simp only [step]
    split
    · split
      · exact lost_inv h ‹_› ‹_› hc
      · exact h
    · exact h
  | connectionLost =>
    simp only [step]
    split
    · rename_i hs
      have hoff : s.connected = false := h.swapping (by rw [hs]; exact Option.some_ne_none _)
      have hnil := h.offline hoff
      have hun : unanswered s = [] := by
        unfold unanswered
        rw [hs, hnil]
        rfl
      have hun' : unanswered { flushPendingSdoState s with swapped := none } = [] := by
        unfold unanswered flushPendingSdoState
        dsimp only
        rw [hnil]
        rfl
      rw [hun] at h
      rw [hun']
      exact flush_inv h
    · exact h

theorem trace_inv (editor : Editor) (σ : Nat → Event) (n : Nat)
    (h : ∀ m < n, Condition uiText isDouble (trace (step uiText isDouble) (initial editor) σ m) (σ m)) :
    Inv (unanswered (trace (step uiText isDouble) (initial editor) σ n))
      (trace (step uiText isDouble) (initial editor) σ n) :=
  trace_inv_guarded (step uiText isDouble) (initial editor) σ (I := fun s => Inv (unanswered s) s)
    (initial_inv editor) (fun _ _ hs hc => step_inv hs hc) n h

end

/-- A byte of an output object. -/
def outputs (value : String) : Editor where
  selectedPosition := 1
  selectedSdoWritable := true
  sdoIndex := "0x7000"
  sdoSubIndex := "1"
  sdoType := "octet_string"
  sdoWriteValue := value

def readValue (value : String) : QJsonObject := [("value", .string value)]

/-- A write that is acknowledged and read back twice. -/
def acknowledged : List Event :=
  [.connect, .write, .answer 0 [], .answer 0 (readValue "05"), .answer 0 (readValue "05")]

/-- A write that is rejected. -/
def rejected : List Event :=
  [.connect, .write, .answer 0 (errorResult "SDO download failed" (-32000))]

end NekoEcat.L4.SdoWrites
