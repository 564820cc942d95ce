import NekoEcat.Core.Utf8
import NekoEcat.L2Client.Pairing
import NekoEcat.L2Daemon.ReadClient

/-!
# The client's test for success

`rpc_call` searches the text of a response for `"ok":true`. In a failure every
text the daemon did not choose itself is a string value: its quotes are escaped,
and what follows its closing quote is no colon.

* `strstr_narrow`: where the longer of two needles can be.
* `strstr_failure`: the search for the key `ok` passes the error and the id.
* `isOk_line`: the test is the response's top-level `ok`.
* `rpcCall_exact`: what `rpc_call` makes of a response of any size.
-/
namespace NekoEcat.L2.OkTest
open NekoEcat.Bytes NekoEcat.CScan NekoEcat.QJson NekoEcat.Utf8 NekoEcat.L2.Pairing

/-! ## Responses -/

/-- mirrors src/core/JsonProtocol.cpp:23-29 -/
def success (id : String) (result : QJsonObject) : QJsonObject :=
  ofList [("id", .string id), ("ok", .bool true), ("result", .object result)]

inductive Response where
  | success (id : String) (result : QJsonObject)
  | failure (id message : String) (code : Int)

def Response.object : Response → QJsonObject
  | .success id result => OkTest.success id result
  | .failure id message code => ReadClient.failure id message code

/-- The frame without its newline.
mirrors src/core/JsonProtocol.cpp:8-11 -/
def Response.line (r : Response) : Bytes := utf8 (compact (.object r.object))

/-- The top-level `ok` member. -/
def Response.ok (r : Response) : Bool := QJson.toBool (value r.object "ok")

/-! ## Searching -/

/-- A longer needle is not found before the shorter one. -/
theorem strstr_narrow {needle : List Char} (x : List Char) {s t : List Char} (h : strstr needle s = some t) :
    strstr (needle ++ x) s = strstr (needle ++ x) t := by
  induction s with
  | nil => rw [List.suffix_nil.1 (strstr_some h).2]
  | cons c cs ih =>
    rw [strstr] at h
    split at h
    · cases h
      rfl
    · rename_i hn
      rw [strstr_cons_skip, ih h]
      exact fun hp => hn (List.isPrefixOf_iff_prefix.2 ((List.prefix_append _ _).trans hp))

/-- The search for a key passes an object of scalars that has other keys. -/
theorem strstr_compactFields_ne {k : String} (hk : isKey k = true) {c : Char} (hc : isSep c = true) (rest : List Char) :
    ∀ {fs : QJsonObject}, (∀ f ∈ fs, isKey f.1 = true ∧ isScalar f.2 = true ∧ k ≠ f.1) →
    strstr (keyNeedle k) (compactFields fs ++ c :: rest) = strstr (keyNeedle k) (c :: rest)
  | [], _ => by
    rw [compactFields, List.singleton_append, strstr_cons_skip]
    rw [keyNeedle_eq, List.cons_prefix_cons]
    exact fun h => absurd h.1 (by decide)
  | [(k', v)], hfs => by
    obtain ⟨hk', hv, hne⟩ := hfs _ List.mem_cons_self
    rw [show compactFields [(k', v)] ++ c :: rest = quoted k'.toList ++ ':' :: (compact v ++ '}' :: c :: rest) by
      simp [compactFields]]
    rw [strstr_key_ne hk hk' hne, strstr_scalar hk hv (by decide), strstr_cons_skip]
    rw [keyNeedle_eq, List.cons_prefix_cons]
    exact fun h => absurd h.1 (by decide)
  | (k', v) :: f :: fs, hfs => by
    obtain ⟨hk', hv, hne⟩ := hfs _ List.mem_cons_self
    rw [show compactFields ((k', v) :: f :: fs) ++ c :: rest =
      quoted k'.toList ++ ':' :: (compact v ++ ',' :: (compactFields (f :: fs) ++ c :: rest)) by simp [compactFields]]
    rw [strstr_key_ne hk hk' hne, strstr_scalar hk hv (by decide), strstr_cons_skip]
    · exact strstr_compactFields_ne hk hc rest fun g hg => hfs g (List.mem_cons_of_mem _ hg)
    · rw [keyNeedle_eq, List.cons_prefix_cons]
      exact fun h => absurd h.1 (by decide)

/-! ## The text of a response -/

/-- A member whose key comes later. -/
theorem insert_later {k k' : String} (hne : k ≠ k') (h : ¬ k < k') (v v' : QJsonValue) (o : QJsonObject) :
    QJson.insert k v ((k', v') :: o) = (k', v') :: QJson.insert k v o := by
  rw [QJson.insert, if_neg hne, if_neg h]

theorem success_fields (id : String) (result : QJsonObject) :
    success id result = [("id", .string id), ("ok", .bool true), ("result", .object result)] := by
  unfold success ofList
  simp only [List.foldl_cons, List.foldl_nil]
  rw [QJson.insert, insert_later (by decide) (by decide), QJson.insert, insert_later (by decide) (by decide),
    insert_later (by decide) (by decide), QJson.insert]

theorem failure_fields (id message : String) (code : Int) :
    ReadClient.failure id message code =
      [("error", .object [("code", .int code), ("message", .string message)]), ("id", .string id), ("ok", .bool false)] := by
  have herror : ofList [("code", .int code), ("message", .string message)] =
      [("code", .int code), ("message", .string message)] := by
    unfold ofList
    simp only [List.foldl_cons, List.foldl_nil]
    rw [QJson.insert, insert_later (by decide) (by decide), QJson.insert]
  unfold ReadClient.failure
  rw [herror, ofList]
  simp only [List.foldl_cons, List.foldl_nil]
  rw [show QJson.insert "id" (.string id) [] = [("id", .string id)] from rfl,
    insert_later (by decide) (by decide), QJson.insert, QJson.insert, if_neg (by decide), if_pos (by decide)]

theorem response_ok (r : Response) : r.ok = match r with | .success _ _ => true | .failure _ _ _ => false := by
  unfold Response.ok Response.object
  cases r with
  | success id result => dsimp only; rw [success_fields]; simp [QJson.value_cons, QJson.toBool]
  | failure id message code => dsimp only; rw [failure_fields]; simp [QJson.value_cons, QJson.toBool]

/-- The first `"ok":` of a failure is its own, the last member. -/
theorem strstr_failure (id message : String) (code : Int) :
    strstr (keyNeedle "ok") (compact (.object (ReadClient.failure id message code))) =
      some (keyNeedle "ok" ++ "false\x7d".toList) := by
  have hk : isKey "ok" = true := by decide
  have hskip {x : Char} (hx : x ≠ '"') (rest : List Char) :
      strstr (keyNeedle "ok") (x :: rest) = strstr (keyNeedle "ok") rest := by
    apply strstr_cons_skip
    rw [keyNeedle_eq, List.cons_prefix_cons]
    exact fun h => hx h.1.symm
  have herror : ∀ f ∈ [("code", QJsonValue.int code), ("message", .string message)],
      isKey f.1 = true ∧ isScalar f.2 = true ∧ "ok" ≠ f.1 := by
    simp only [List.forall_mem_cons, List.not_mem_nil, false_implies, implies_true, and_true]
    exact ⟨⟨by decide, rfl, by decide⟩, by decide, rfl, by decide⟩
  have htext : compact (.object (ReadClient.failure id message code)) =
      '{' :: (quoted "error".toList ++ ':' :: ('{' ::
        (compactFields [("code", .int code), ("message", .string message)] ++ ',' ::
          (quoted "id".toList ++ ':' :: (compact (.string id) ++ ',' ::
            (quoted "ok".toList ++ ':' :: "false\x7d".toList)))))) := by
    rw [failure_fields]
    simp [compact, compactFields]
  rw [htext]
  rw [hskip (by decide), strstr_key_ne hk (by decide) (by decide), hskip (by decide),
    strstr_compactFields_ne hk (by decide) _ herror, hskip (by decide), strstr_key_ne hk (by decide) (by decide),
    strstr_scalar hk rfl (by decide), hskip (by decide), strstr_key_self hk]

theorem needle_eq : "\"ok\":true".toList = keyNeedle "ok" ++ "true".toList := by simp [keyNeedle]

/-- **The test is exact.** -/
theorem isOk_line (r : Response) : isOk r.line = r.ok := by
  have hascii : ∀ c ∈ "\"ok\":true".toList, IsAscii c := by simp [IsAscii]
  have hiff : isOk r.line = true ↔ (strstr "\"ok\":true".toList (compact (.object r.object))).isSome = true := by
    unfold isOk Response.line
    rw [strstr_isSome, strstr_isSome]
    exact infix_latin1_utf8 hascii (by decide) _
  rw [Bool.eq_iff_iff, hiff, response_ok]
  cases r with
  | success id result =>
    refine iff_of_true (strstr_isSome.2 ?_) rfl
    have htext : compact (.object (success id result)) =
        ('{' :: (quoted "id".toList ++ ':' :: (compact (.string id) ++ [',']))) ++ "\"ok\":true".toList ++
          (',' :: (quoted "result".toList ++ ':' :: (compact (.object result) ++ ['}']))) := by
      have hkey : quoted ['o', 'k'] = ['"', 'o', 'k', '"'] := by decide
      rw [success_fields]
      simp [compact, compactFields, hkey]
    rw [Response.object, htext]
    exact List.infix_append _ _ _
  | failure id message code =>
    refine iff_of_false ?_ Bool.false_ne_true
    rw [Response.object, needle_eq, strstr_narrow _ (strstr_failure id message code)]
    decide

/-- A call whose request is on its way, by the line that answers it. -/
theorem returned_isSome {D : Type} (dm : Daemon D) {c : Conn D} (hc : Clean c) {rpc : Rpc}
    (hl : newline ∉ request rpc) {io : Io} {n : Nat} (ha : io.accepted = some n) (hn : (request rpc).length < n)
    {r : Response} (hr : (dm.answer c.daemon (request rpc)).2 = r.line) :
    (rpcCall dm c rpc io).2.returned.isSome = true ↔ r.ok = true ∧ r.line.length + 2 ≤ kMaxRpcResponse ∧
      ∀ k, io.fails = some k → r.line.length < k := by
  have hone := dm.oneLine c.daemon (request rpc)
  have hrecv := @recvLine_line io.fails _ [] hone
  rw [rpcCall_whole dm hc hl ha hn]
  dsimp only
  rw [hr] at hrecv ⊢
  by_cases hfit : r.line.length + 2 ≤ kMaxRpcResponse ∧ ∀ k, io.fails = some k → r.line.length < k
  · rw [if_pos hfit] at hrecv
    rw [hrecv, Option.filter_some, isOk_line, and_iff_left hfit]
    cases r.ok <;> simp
  · rw [if_neg hfit] at hrecv
    rw [hrecv.1]
    exact iff_of_false (by simp) fun h => hfit h.2

/-- **What `rpc_call` makes of a response.** The test of a line is the
response's `ok`; and once the request is on its way the call succeeds exactly
when that is true, the line fits the client's buffer and no read fails on the
way. -/
theorem rpcCall_exact {D : Type} (dm : Daemon D) {c : Conn D} (hc : Clean c) {rpc : Rpc}
    (hl : newline ∉ request rpc) {io : Io} {n : Nat} (ha : io.accepted = some n) (hn : (request rpc).length < n)
    {r : Response} (hr : (dm.answer c.daemon (request rpc)).2 = r.line) :
    isOk r.line = r.ok ∧
      ((rpcCall dm c rpc io).2.returned.isSome = true ↔ r.ok = true ∧ r.line.length + 2 ≤ kMaxRpcResponse ∧
        ∀ k, io.fails = some k → r.line.length < k) :=
  ⟨isOk_line r, returned_isSome dm hc hl ha hn hr⟩

/-! ## A daemon that says yes -/

theorem newline_escape (s : List Char) : '\n' ∉ escape s := by
  intro h
  obtain ⟨c, -, hm⟩ := List.mem_flatMap.1 h
  have hhex : ∀ u < 16, '\n' ≠ hexdig u := by decide
  rcases escapeChar_cases c with ⟨he, -⟩ | ⟨t, ht, he⟩ | ⟨u, v, hu, hv, he⟩
  · rw [he, List.mem_singleton] at hm
    exact absurd (hm ▸ he) (by decide)
  · rw [he] at hm
    obtain rfl : '\n' = t := by simpa using hm
    exact absurd ht (by simp)
  · rw [he] at hm
    simp [hhex u hu, hhex v hv] at hm

theorem length_le_escape (s : List Char) : s.length ≤ (escape s).length := by
  induction s with
  | nil => exact Nat.zero_le _
  | cons c s ih =>
    have hpos : 0 < (escapeChar c).length := by
      rcases escapeChar_cases c with ⟨he, -⟩ | ⟨t, -, he⟩ | ⟨u, v, -, -, he⟩ <;> rw [he] <;> exact Nat.succ_pos _
    rw [escape_cons, List.length_append, List.length_cons]
    omega

/-- The text of a success without a result. -/
theorem compact_success (id : String) :
    compact (.object (success id [])) =
      "\x7b\"id\":\"".toList ++ escape id.toList ++ "\",\"ok\":true,\"result\":\x7b\x7d\x7d".toList := by
  have hid : escape ['i', 'd'] = ['i', 'd'] := by decide
  have hok : escape ['o', 'k'] = ['o', 'k'] := by decide
  have hresult : escape ['r', 'e', 's', 'u', 'l', 't'] = ['r', 'e', 's', 'u', 'l', 't'] := by decide
  rw [success_fields]
  simp [compact, compactFields, quoted, hid, hok, hresult]

theorem newline_success (id : String) : newline ∉ (Response.success id []).line := by
  have hascii : IsAscii '\n' := by unfold IsAscii; decide
  have hbyte : UInt8.ofNat '\n'.toNat = newline := by decide
  rw [Response.line, Response.object, ← hbyte, mem_utf8 hascii, compact_success]
  have := newline_escape id.toList
  simp [this]

theorem length_le_line (id : String) : id.toList.length ≤ (Response.success id []).line.length := by
  have hutf8 := length_le_utf8 (compact (.object (success id [])))
  have hid := length_le_escape id.toList
  rw [compact_success, List.length_append, List.length_append, ← compact_success] at hutf8
  show _ ≤ (utf8 (compact (.object (success id [])))).length
  omega

/-- A daemon that answers every line with a success under the given id. -/
def agreeing (id : String) : Daemon Unit where
  answer := fun _ _ => ((), (Response.success id []).line)
  oneLine := fun _ _ => newline_success id

theorem agreeing_answer (id : String) (d : Unit) (line : Bytes) :
    ((agreeing id).answer d line).2 = (Response.success id []).line := rfl

def idle : Conn Unit := ⟨(), [], []⟩

theorem idle_clean : Clean idle := ⟨rfl, rfl⟩

theorem stop_newline : newline ∉ request .freeRunStop :=
  have hfits : Rpc.fits .freeRunStop := trivial
  (fits_iff.1 hfits).1

theorem stop_sent : (request .freeRunStop).length < 1024 :=
  Nat.lt_of_le_of_lt (request_length _) (by decide)

theorem rpcCall_exact_small : (rpcCall (agreeing "1") idle .freeRunStop allThrough).2.returned.isSome = true :=
  have ha : allThrough.accepted = some 1024 := rfl
  have hlen : (Response.success "1" []).line.length + 2 ≤ kMaxRpcResponse := by
    rw [Response.line, Response.object, success_fields]
    decide +kernel
  (rpcCall_exact (agreeing "1") idle_clean stop_newline ha stop_sent (agreeing_answer "1" () _)).2.2
    ⟨response_ok _, hlen, nofun⟩

theorem long_rejected {id : String} (h : kMaxRpcResponse ≤ id.toList.length) :
    (Response.success id []).ok = true ∧
      (rpcCall (agreeing id) idle .freeRunStop allThrough).2.returned.isSome = false := by
  have ha : allThrough.accepted = some 1024 := rfl
  refine ⟨response_ok _, ?_⟩
  rw [← Bool.not_eq_true, returned_isSome (agreeing id) idle_clean stop_newline ha stop_sent (agreeing_answer id () _)]
  rintro ⟨-, hlen, -⟩
  have := length_le_line id
  omega

/-- An id of one mebibyte. -/
def longId : String := String.ofList (List.replicate kMaxRpcResponse 'a')

/-- **A success can be too long.** The response is ok, and the call fails. -/
theorem long_success_rejected :
    (Response.success longId []).ok = true ∧
      (rpcCall (agreeing longId) idle .freeRunStop allThrough).2.returned.isSome = false :=
  long_rejected (by rw [longId, String.toList_ofList, List.length_replicate])

end NekoEcat.L2.OkTest
