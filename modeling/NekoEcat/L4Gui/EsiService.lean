import NekoEcat.Core.QHash
import NekoEcat.Core.QNumber

/-!
# ESI files of the GUI

`EsiService` writes a device as XML text, and reads XML through `QXmlStreamReader`.
It writes the numbers of PDOs and entries as elements and looks for them as
attributes, and a `Name` inside a PDO is taken for that of the device.

* `exportEsi_ok`: what a file that was exported holds.
* `run_document`: how the import loop goes through the tokens of a device.
* `importEsi_document`: the device that is added for them.
* `reimport_iff`: the devices that come back.

Limitations: the texts go into the file as they are, and what the reader finds in it
is a parameter; `reimport_iff` is about devices without markup in their texts.
-/
namespace NekoEcat.L4.Esi
open NekoEcat.QNumber NekoEcat.QString

abbrev Text := List Char

/-! ## Devices -/

structure EsiPdoEntry where
  index : Text := []
  subIndex : Text := []
  name : Text := []
  type : Text := []
  bitSize : Int32 := 0
  deriving DecidableEq

structure EsiPdoAssignment where
  index : Text := []
  name : Text := []
  entries : List EsiPdoEntry := []
  deriving DecidableEq

/-- Without the fields that are not in a file. -/
structure EsiSyncManager where
  index : Int32 := 0
  direction : Text := []
  deriving DecidableEq

/-- mirrors apps/ecat-studio/services/EsiService.h:64-75 -/
structure EsiDeviceInfo where
  deviceId : Text := []
  name : Text := []
  type : Text := []
  description : Text := []
  vendorId : Int32 := 0
  productCode : Int32 := 0
  revisionNo : Int32 := 0
  rxPdos : List EsiPdoAssignment := []
  txPdos : List EsiPdoAssignment := []
  syncManagers : List EsiSyncManager := []

/-- mirrors apps/ecat-studio/services/EsiService.cpp:16-23 -/
def parseHexOrDec (s : Text) : Int32 :=
  let parse (cs : Text) : Int32 := Int32.ofInt ((toInt 16 cs).getD 0)
  match trim s with
  | '#' :: c :: cs => if c = 'x' ∨ c = 'X' then parse cs else parse ('#' :: c :: cs)
  | '0' :: c :: cs => if c = 'x' ∨ c = 'X' then parse cs else parse ('0' :: c :: cs)
  | cs => parse cs

/-! ## XML -/

/-- What a text is made of. -/
inductive Piece where
  | declaration
  | start (name : String) (attributes : List (String × Text))
  | empty (name : String) (attributes : List (String × Text))
  | close (name : String)
  | raw (text : Text)

/-- What `readNext` goes through; the characters of a text are one by one. -/
inductive Token where
  | start (name : String) (attributes : List (String × Text))
  | character (c : Char)
  | close (name : String)
  deriving DecidableEq

def attributeText (attributes : List (String × Text)) : Text :=
  attributes.flatMap fun a => ' ' :: a.1.toList ++ '=' :: '"' :: a.2 ++ ['"']

def Piece.text : Piece → Text
  | .declaration => "<?xml version=\"1.0\" encoding=\"UTF-8\"?>".toList
  | .start name attributes => '<' :: name.toList ++ attributeText attributes ++ ['>']
  | .empty name attributes => '<' :: name.toList ++ attributeText attributes ++ ['/', '>']
  | .close name => '<' :: '/' :: name.toList ++ ['>']
  | .raw text => text

/-- The tokens that a piece stands for, if its texts are taken literally. -/
def Piece.tokens : Piece → List Token
  | .declaration => []
  | .start name attributes => [.start name attributes]
  | .empty name attributes => [.start name attributes, .close name]
  | .close name => [.close name]
  | .raw text => text.map .character

def textOf (pieces : List Piece) : Text := pieces.flatMap Piece.text

def tokensOf (pieces : List Piece) : List Token := pieces.flatMap Piece.tokens

/-- `QXmlStreamReader`: the tokens of a text, and the error that ends them. -/
abbrev Reader := Text → List Token × Option Text

/-! ## Export -/

def indent (n : Nat) : Piece := .raw (List.replicate n ' ')

/-- Pieces on a line of their own. -/
def line (n : Nat) (pieces : List Piece) : List Piece := indent n :: pieces ++ [.raw ['\n']]

/-- An element with a text. -/
def leaf (n : Nat) (name : String) (text : Text) : List Piece := line n [.start name [], .raw text, .close name]

/-- An element that is left out when it has no text. -/
def optionalLeaf (n : Nat) (name : String) (pre text : Text) : List Piece :=
  if text = [] then [] else leaf n name (pre ++ text)

/-- mirrors apps/ecat-studio/services/EsiService.cpp:228-237 -/
def entryPieces (e : EsiPdoEntry) : List Piece :=
  line 8 [.start "Entry" []] ++ leaf 10 "Index" (['#', 'x'] ++ e.index) ++
    leaf 10 "SubIndex" (['#', 'x'] ++ e.subIndex) ++ leaf 10 "BitLen" (QJson.intText e.bitSize.toInt) ++ optionalLeaf 10 "Name" [] e.name ++
    optionalLeaf 10 "DataType" ['#', 'x'] e.type ++ line 8 [.close "Entry"]

/-- mirrors apps/ecat-studio/services/EsiService.cpp:223-239 -/
def writePdo (tag : String) (pdo : EsiPdoAssignment) : List Piece :=
  line 6 [.start tag []] ++ leaf 8 "Index" (['#', 'x'] ++ pdo.index) ++ leaf 8 "Name" pdo.name ++
    pdo.entries.flatMap entryPieces ++ line 6 [.close tag]

/-- `QString::number(n, 16)`, with `n` as an unsigned number of 64 bits. -/
def hex (n : Int32) : Text := Nat.toDigits 16 (n.toInt % 2 ^ 64).toNat

def typePieces (dev : EsiDeviceInfo) : List Piece :=
  line 6 [.start "Type" [("ProductCode", ['#', 'x'] ++ hex dev.productCode),
    ("RevisionNo", ['#', 'x'] ++ hex dev.revisionNo), ("VendorId", ['#', 'x'] ++ hex dev.vendorId)],
    .raw dev.name, .close "Type"]

def smPieces (sm : EsiSyncManager) : List Piece :=
  line 6 [.empty "Sm" [("Index", QJson.intText sm.index.toInt), ("Dir", sm.direction)]]

/-- What is written of a device.
mirrors apps/ecat-studio/services/EsiService.cpp:206-248 -/
def document (dev : EsiDeviceInfo) : List Piece :=
  line 0 [.declaration] ++ line 0 [.start "EtherCATInfo" []] ++ line 2 [.start "Descriptions" []] ++
    line 4 [.start "Device" []] ++ typePieces dev ++ leaf 6 "Name" dev.name ++ optionalLeaf 6 "Desc" [] dev.description ++
    dev.syncManagers.flatMap smPieces ++ dev.rxPdos.flatMap (writePdo "RxPdo") ++ dev.txPdos.flatMap (writePdo "TxPdo") ++
    line 4 [.close "Device"] ++ line 2 [.close "Descriptions"] ++ line 0 [.close "EtherCATInfo"]

abbrev Files := String → Option Text

structure EsiService where
  devices : List EsiDeviceInfo := []
  deviceIndex : QHash Text Nat := QHash.empty
  errors : List String := []
  imported : List Nat := []

/-- mirrors apps/ecat-studio/services/EsiService.cpp:194-251 -/
def exportEsi (writable : Bool) (deviceId : Text) (outputPath : String) (s : EsiService) (files : Files) :
    Bool × Files :=
  if outputPath = "" then (false, files)
  else
    match (s.deviceIndex.value deviceId).bind fun i => s.devices[i]? with
    | none => (false, files)
    | some dev =>
      if writable then (true, fun p => if p = outputPath then some (textOf (document dev)) else files p)
      else (false, files)

/-! ## Import -/

structure ImportState where
  current : EsiDeviceInfo := {}
  inDescriptions : Bool := false
  inDevice : Bool := false
  inRxPdo : Bool := false
  inTxPdo : Bool := false
  inSm : Bool := false
  currentPdo : EsiPdoAssignment := {}
  currentEntry : EsiPdoEntry := {}
  parsedDevices : List EsiDeviceInfo := []

/-- `readElementText()`: the text up to the end of the element, and the tokens
behind it; no element may start in it. -/
def readElementText : List Token → Option (Text × List Token)
  | .character c :: ts => (readElementText ts).map fun r => (c :: r.1, r.2)
  | .close _ :: ts => some ([], ts)
  | .start _ _ :: _ => none
  | [] => none

/-- `xml.attributes().value(name)` -/
def attr (attributes : List (String × Text)) (name : String) : Text := (attributes.lookup name).getD []

def skip0x : Text → Text
  | '0' :: 'x' :: cs => cs
  | cs => cs

/-- mirrors apps/ecat-studio/services/EsiService.cpp:107-122 -/
def typeElement (attributes : List (String × Text)) (current : EsiDeviceInfo) (text : Text) : EsiDeviceInfo :=
  let typeText := attr attributes "Type"
  let vid := parseHexOrDec (attr attributes "VendorId")
  let pcode := parseHexOrDec (attr attributes "ProductCode")
  let rev := parseHexOrDec (attr attributes "RevisionNo")
  let current := if vid ≠ 0 then { current with vendorId := vid } else current
  let current := if pcode ≠ 0 then { current with productCode := pcode } else current
  let current := if rev ≠ 0 then { current with revisionNo := rev } else current
  let current := if typeText ≠ [] then { current with type := typeText } else current
  { current with name := if text = [] then current.type else text }

/-- A start inside a device; what comes behind the branches with a text is left.
mirrors apps/ecat-studio/services/EsiService.cpp:105-156 -/
def deviceElement (name : String) (attributes : List (String × Text)) (ts : List Token) (s : ImportState) :
    Option (List Token × ImportState) :=
  let withText (f : Text → ImportState) := (readElementText ts).map fun r => (r.2, f r.1)
  let index := attr attributes "Index"
  if name = "Type" then withText fun text => { s with current := typeElement attributes s.current text }
  else if name = "Name" then withText fun text => { s with current := { s.current with name := text } }
  else if name = "Desc" then withText fun text => { s with current := { s.current with description := text } }
  else if name = "Sm" then
    let sm := { index := Int32.ofInt ((toInt 10 index).getD 0), direction := attr attributes "Dir" }
    some (ts, { s with inSm := true, current := { s.current with syncManagers := s.current.syncManagers ++ [sm] } })
  else if name = "RxPdo" then some (ts, { s with inRxPdo := true, currentPdo := { index := skip0x index } })
  else if name = "TxPdo" then some (ts, { s with inTxPdo := true, currentPdo := { index := skip0x index } })
  else if name = "Entry" then
    let bitSize := Int32.ofInt ((toInt 10 (attr attributes "BitLen")).getD 0)
    let entry := { s.currentEntry with index := skip0x index, subIndex := attr attributes "SubIndex", bitSize := bitSize }
    some (ts, { s with currentEntry := entry })
  -- `Name` again: a second branch for the entry's name is never reached
  else if name = "DataType" && (s.inRxPdo || s.inTxPdo) then
    withText fun text => { s with currentEntry := { s.currentEntry with type := text } }
  else some (ts, s)

/-- mirrors apps/ecat-studio/services/EsiService.cpp:98-157 -/
def startElement (name : String) (attributes : List (String × Text)) (ts : List Token) (s : ImportState) :
    Option (List Token × ImportState) :=
  let s := if name = "Descriptions" then { s with inDescriptions := true } else s
  let s := if s.inDescriptions && name = "Device" then { s with inDevice := true, current := {} } else s
  if s.inDevice then deviceElement name attributes ts s else some (ts, s)

/-- `QString("%1:%2").arg(vendorId, 8, 16, QChar('0')).arg(productCode, 8, 16, QChar('0'))` -/
def deviceKey (vendorId productCode : Int32) : Text :=
  (hex vendorId).leftpad 8 '0' ++ ':' :: (hex productCode).leftpad 8 '0'

section
variable (known : Text → Bool)

/-- mirrors apps/ecat-studio/services/EsiService.cpp:56-69 -/
def closeDevice (s : ImportState) : ImportState :=
  let key := deviceKey s.current.vendorId s.current.productCode
  let new := s.inDevice && s.current.vendorId ≠ 0 && !known key && !s.parsedDevices.any (·.deviceId = key)
  let parsedDevices := if new then s.parsedDevices ++ [{ s.current with deviceId := key }] else s.parsedDevices
  { s with parsedDevices := parsedDevices, current := {}, inDevice := false }

/-- mirrors apps/ecat-studio/services/EsiService.cpp:52-92 -/
def closeElement (name : String) (s : ImportState) : ImportState :=
  if name = "Descriptions" then { s with inDescriptions := false }
  else if name = "Device" then closeDevice known s
  else if name = "RxPdo" then
    if s.inRxPdo then
      let current := { s.current with rxPdos := s.current.rxPdos ++ [s.currentPdo] }
      { s with current := current, currentPdo := {}, inRxPdo := false }
    else s
  else if name = "TxPdo" then
    if s.inTxPdo then
      let current := { s.current with txPdos := s.current.txPdos ++ [s.currentPdo] }
      { s with current := current, currentPdo := {}, inTxPdo := false }
    else s
  else if name = "Sm" then { s with inSm := false }
  else if name = "Entry" then
    let extended := { s.currentPdo with entries := s.currentPdo.entries ++ [s.currentEntry] }
    let currentPdo := if s.inRxPdo || s.inTxPdo then extended else s.currentPdo
    { s with currentPdo := currentPdo, currentEntry := {} }
  else s

/-- The loop over the tokens, with fuel; `none` is an error of `readElementText`.
mirrors apps/ecat-studio/services/EsiService.cpp:49-158 -/
def importLoop : Nat → List Token → ImportState → Option ImportState
  | 0, _, s => some s
  | _ + 1, [], s => some s
  | fuel + 1, .character _ :: ts, s => importLoop fuel ts s
  | fuel + 1, .close name :: ts, s => importLoop fuel ts (closeElement known name s)
  | fuel + 1, .start name attributes :: ts, s => (startElement name attributes ts s).bind fun r => importLoop fuel r.1 r.2

end

def EsiService.error (s : EsiService) (message : String) : Bool × EsiService :=
  (false, { s with errors := s.errors ++ [message] })

def EsiService.add (s : EsiService) (device : EsiDeviceInfo) : EsiService :=
  { s with deviceIndex := s.deviceIndex.insert device.deviceId s.devices.length, devices := s.devices ++ [device] }

/-- mirrors apps/ecat-studio/services/EsiService.cpp:25-172 -/
def importEsi (read : Reader) (files : Files) (filePath : String) (s : EsiService) : Bool × EsiService :=
  if filePath = "" then s.error "ESI path is empty"
  else
    match files filePath with
    | none => s.error (arg "Cannot open file: %1" filePath)
    | some text =>
      let (tokens, failed) := read text
      match importLoop (fun key => (s.deviceIndex.value key).isSome) tokens.length tokens {}, failed with
      | none, _ => s.error "XML parse error: Expected character data."
      | some _, some error => s.error (arg "XML parse error: %1" (String.ofList error))
      | some state, none =>
        if state.parsedDevices.isEmpty then s.error (arg "No ESI devices found: %1" filePath)
        else
          let s := state.parsedDevices.foldl EsiService.add s
          (true, { s with imported := s.imported ++ [s.devices.length] })

/-! ## The loop -/

theorem tokensOf_append (ps qs : List Piece) : tokensOf (ps ++ qs) = tokensOf ps ++ tokensOf qs := List.flatMap_append

theorem readElementText_raw (text : Text) (name : String) (ts : List Token) :
    readElementText (text.map .character ++ .close name :: ts) = some (text, ts) := by
  induction text with
  | nil => rfl
  | cons c text ih => rw [List.map_cons, List.cons_append, readElementText, ih, Option.map_some]

theorem readElementText_length {ts : List Token} {r : Text × List Token} (h : readElementText ts = some r) :
    r.2.length ≤ ts.length := by
  induction ts generalizing r with
  | nil => cases h
  | cons t ts ih =>
    cases t with
    | character c =>
      obtain ⟨r', hr', rfl⟩ := Option.map_eq_some_iff.1 h
      have hle := ih hr'
      exact Nat.le_succ_of_le hle
    | close name =>
      cases h
      exact Nat.le_succ _
    | start name attributes => cases h

theorem deviceElement_length {name : String} {attributes : List (String × Text)} {ts : List Token} {s : ImportState}
    {r : List Token × ImportState} (h : deviceElement name attributes ts s = some r) : r.1.length ≤ ts.length := by
  have hwith {g : Text × List Token → List Token × ImportState} (hg : ∀ r, (g r).1 = r.2)
      (h : (readElementText ts).map g = some r) : r.1.length ≤ ts.length := by
    obtain ⟨r', hr', rfl⟩ := Option.map_eq_some_iff.1 h
    rw [hg]
    exact readElementText_length hr'
  have hsame {s : ImportState} (h : some (ts, s) = some r) : r.1.length ≤ ts.length := by
    cases h
    exact Nat.le_refl _
  unfold deviceElement at h
  simp only at h
  repeat' split at h
  all_goals
    first
    | exact hwith (fun _ => rfl) h
    | exact hsame h

theorem startElement_length {name : String} {attributes : List (String × Text)} {ts : List Token} {s : ImportState}
    {r : List Token × ImportState} (h : startElement name attributes ts s = some r) : r.1.length ≤ ts.length := by
  unfold startElement at h
  extract_lets s₁ s₂ at h
  split at h
  · exact deviceElement_length h
  · cases h
    exact Nat.le_refl _

section
variable (known : Text → Bool)

/-- More fuel than tokens makes no difference. -/
theorem importLoop_fuel {fuel fuel' : Nat} {ts : List Token} (h : ts.length ≤ fuel) (h' : ts.length ≤ fuel')
    (s : ImportState) : importLoop known fuel ts s = importLoop known fuel' ts s := by
  induction fuel generalizing fuel' ts s with
  | zero =>
    rw [List.length_eq_zero_iff.1 (Nat.le_zero.1 h)]
    cases fuel' <;> rfl
  | succ fuel ih =>
    cases ts with
    | nil => cases fuel' <;> rfl
    | cons t ts =>
      cases fuel' with
      | zero => cases h'
      | succ fuel' =>
        have hle := Nat.le_of_succ_le_succ h
        have hle' := Nat.le_of_succ_le_succ h'
        cases t with
        | character c => exact ih hle hle' s
        | close name => exact ih hle hle' _
        | start name attributes =>
          rw [importLoop, importLoop]
          refine Option.bind_congr fun r hr => ?_
          have hshort := startElement_length hr
          exact ih (Nat.le_trans hshort hle) (Nat.le_trans hshort hle') r.2

/-- The loop over all tokens. -/
def run (ts : List Token) (s : ImportState) : Option ImportState := importLoop known ts.length ts s

theorem run_close (name : String) (ts : List Token) (s : ImportState) :
    run known (.close name :: ts) s = run known ts (closeElement known name s) := rfl

theorem run_start {name : String} {attributes : List (String × Text)} {ts ts' : List Token} {s s' : ImportState}
    (h : startElement name attributes ts s = some (ts', s')) :
    run known (.start name attributes :: ts) s = run known ts' s' := by
  unfold run
  rw [List.length_cons, importLoop, h, Option.bind_some]
  exact importLoop_fuel known (startElement_length h) (Nat.le_refl _) s'

theorem run_raw (text : Text) (ts : List Token) (s : ImportState) :
    run known (text.map .character ++ ts) s = run known ts s := by
  induction text with
  | nil => rfl
  | cons c text ih => exact ih

/-- White space around pieces makes no difference. -/
theorem run_line (n : Nat) (pieces : List Piece) (ts : List Token) (s : ImportState) :
    run known (tokensOf (line n pieces) ++ ts) s = run known (tokensOf pieces ++ .character '\n' :: ts) s := by
  have htokens : tokensOf (line n pieces) ++ ts =
      (List.replicate n ' ').map .character ++ (tokensOf pieces ++ .character '\n' :: ts) := by
    simp [line, indent, tokensOf, Piece.tokens]
  rw [htokens, run_raw]

theorem run_opened {name : String} {attributes : List (String × Text)} {s t : ImportState}
    (h : ∀ ts, startElement name attributes ts s = some (ts, t)) (n : Nat) (ts : List Token) :
    run known (tokensOf (line n [.start name attributes]) ++ ts) s = run known ts t := by
  have hstart : startElement name attributes (.character '\n' :: ts) s = some (.character '\n' :: ts, t) := h _
  rw [run_line]
  change run known (.start name attributes :: .character '\n' :: ts) s = _
  rw [run_start known hstart]
  rfl

theorem run_closed (name : String) (n : Nat) (ts : List Token) (s : ImportState) :
    run known (tokensOf (line n [.close name]) ++ ts) s = run known ts (closeElement known name s) := by
  rw [run_line]
  rfl

theorem tokensOf_element (name : String) (attributes : List (String × Text)) (text : Text) (ts : List Token) :
    tokensOf [.start name attributes, .raw text, .close name] ++ ts =
      .start name attributes :: (text.map .character ++ .close name :: ts) := by
  simp [tokensOf, Piece.tokens]

/-- An element whose text is read. -/
theorem run_text {name : String} {attributes : List (String × Text)} {s : ImportState} {f : Text → ImportState}
    (h : ∀ ts, startElement name attributes ts s = (readElementText ts).map fun r => (r.2, f r.1)) (n : Nat) (text : Text)
    (ts : List Token) : run known (tokensOf (line n [.start name attributes, .raw text, .close name]) ++ ts) s =
      run known ts (f text) := by
  have hstart : startElement name attributes (text.map .character ++ .close name :: .character '\n' :: ts) s =
      some (.character '\n' :: ts, f text) := by
    rw [h, readElementText_raw, Option.map_some]
  rw [run_line, tokensOf_element, run_start known hstart]
  rfl

/-- An element that is passed over. -/
theorem run_passed {name : String} {s : ImportState} (h : ∀ ts, startElement name [] ts s = some (ts, s))
    (hclose : closeElement known name s = s) (n : Nat) (text : Text) (ts : List Token) :
    run known (tokensOf (leaf n name text) ++ ts) s = run known ts s := by
  rw [leaf, run_line, tokensOf_element, run_start known (h _), run_raw, run_close, hclose]
  rfl

/-- Pieces that are written for each element of a list. -/
theorem run_each {α σ : Type} (state : σ → ImportState) (pieces : α → List Piece) (step : σ → α → σ)
    (h : ∀ a x ts, run known (tokensOf (pieces a) ++ ts) (state x) = run known ts (state (step x a)))
    (as : List α) (x : σ) (ts : List Token) :
    run known (tokensOf (as.flatMap pieces) ++ ts) (state x) = run known ts (state (as.foldl step x)) := by
  induction as generalizing x with
  | nil => rfl
  | cons a as ih => rw [List.flatMap_cons, tokensOf_append, List.append_assoc, h, ih, List.foldl_cons]

/-! ## A device that was written -/

/-- In the element of a device. -/
def inside (c : EsiDeviceInfo) : ImportState := { current := c, inDescriptions := true, inDevice := true }

/-- In that of a PDO. -/
def inPdo (rx : Bool) (c : EsiDeviceInfo) (pdo : EsiPdoAssignment) (e : EsiPdoEntry) : ImportState :=
  { inside c with inRxPdo := rx, inTxPdo := !rx, currentPdo := pdo, currentEntry := e }

/-- What an entry is read as: only its type, with what was put in front of it. -/
def EsiPdoEntry.reread (e : EsiPdoEntry) : EsiPdoEntry := { type := if e.type = [] then [] else ['#', 'x'] ++ e.type }

def EsiPdoAssignment.reread (pdo : EsiPdoAssignment) : EsiPdoAssignment := { entries := pdo.entries.map (·.reread) }

/-- The name of the device behind an entry. -/
def entryName (name : Text) (e : EsiPdoEntry) : Text := if e.name = [] then name else e.name

/-- The name behind a PDO: the last one in it. -/
def pdoName (pdo : EsiPdoAssignment) : Text := pdo.entries.foldl entryName pdo.name

theorem run_optional {name : String} {s : ImportState} {f : Text → ImportState}
    (h : ∀ ts, startElement name [] ts s = (readElementText ts).map fun r => (r.2, f r.1)) (n : Nat) (pre text : Text)
    (ts : List Token) : run known (tokensOf (optionalLeaf n name pre text) ++ ts) s =
      run known ts (if text = [] then s else f (pre ++ text)) := by
  unfold optionalLeaf
  split
  · rfl
  · exact run_text known h n _ ts

theorem run_entry (rx : Bool) (c : EsiDeviceInfo) (pdo : EsiPdoAssignment) (e : EsiPdoEntry) (ts : List Token) :
    run known (tokensOf (entryPieces e) ++ ts) (inPdo rx c pdo {}) =
      run known ts (inPdo rx { c with name := entryName c.name e } { pdo with entries := pdo.entries ++ [e.reread] } {}) := by
  have hname : ∀ ts, startElement "Name" [] ts (inPdo rx c pdo {}) =
      (readElementText ts).map fun r => (r.2, inPdo rx { c with name := r.1 } pdo {}) := fun _ => rfl
  have htype : ∀ (c : EsiDeviceInfo) (ts), startElement "DataType" [] ts (inPdo rx c pdo {}) =
      (readElementText ts).map fun r => (r.2, inPdo rx c pdo { type := r.1 }) := fun _ _ => by cases rx <;> rfl
  have hclose : ∀ (c : EsiDeviceInfo) (e : EsiPdoEntry), closeElement known "Entry" (inPdo rx c pdo e) =
      inPdo rx c { pdo with entries := pdo.entries ++ [e] } {} := fun _ _ => by cases rx <;> rfl
  have hnamed : (if e.name = [] then inPdo rx c pdo {} else inPdo rx { c with name := [] ++ e.name } pdo {}) =
      inPdo rx { c with name := entryName c.name e } pdo {} := by
    unfold entryName
    split <;> rfl
  have htyped (c : EsiDeviceInfo) :
      (if e.type = [] then inPdo rx c pdo {} else inPdo rx c pdo { type := ['#', 'x'] ++ e.type }) =
        inPdo rx c pdo e.reread := by
    unfold EsiPdoEntry.reread
    split <;> rfl
  unfold entryPieces
  simp only [tokensOf_append, List.append_assoc]
  have hpassed {name : String} (h : ∀ ts, startElement name [] ts (inPdo rx c pdo {}) = some (ts, inPdo rx c pdo {}))
      (hclose : closeElement known name (inPdo rx c pdo {}) = inPdo rx c pdo {}) := run_passed known h hclose
  rw [run_opened known (t := inPdo rx c pdo {}) (fun _ => rfl), hpassed (fun _ => rfl) rfl, hpassed (fun _ => rfl) rfl,
    hpassed (fun _ => rfl) rfl,
    run_optional known (f := fun text => inPdo rx { c with name := text } pdo {}) hname, hnamed,
    run_optional known (f := fun text => inPdo rx _ pdo { type := text }) (htype _), htyped, run_closed, hclose]

/-- The device with a PDO in it. -/
def addPdo (rx : Bool) (c : EsiDeviceInfo) (pdo : EsiPdoAssignment) : EsiDeviceInfo :=
  if rx then { c with name := pdoName pdo, rxPdos := c.rxPdos ++ [pdo.reread] }
  else { c with name := pdoName pdo, txPdos := c.txPdos ++ [pdo.reread] }

/-- The device and its PDO, with an entry in it. -/
def addEntry (x : EsiDeviceInfo × EsiPdoAssignment) (e : EsiPdoEntry) : EsiDeviceInfo × EsiPdoAssignment :=
  ({ x.1 with name := entryName x.1.name e }, { x.2 with entries := x.2.entries ++ [e.reread] })

theorem foldl_addEntry (es : List EsiPdoEntry) (c : EsiDeviceInfo) (pdo : EsiPdoAssignment) :
    es.foldl addEntry (c, pdo) =
      ({ c with name := es.foldl entryName c.name }, { pdo with entries := pdo.entries ++ es.map (·.reread) }) := by
  induction es generalizing c pdo with
  | nil => simp
  | cons e es ih =>
    rw [List.foldl_cons, addEntry, ih, List.map_cons, List.foldl_cons, List.append_assoc]
    rfl

theorem run_pdo (rx : Bool) (c : EsiDeviceInfo) (pdo : EsiPdoAssignment) (ts : List Token) :
    run known (tokensOf (writePdo (if rx then "RxPdo" else "TxPdo") pdo) ++ ts) (inside c) =
      run known ts (inside (addPdo rx c pdo)) := by
  have hstart : ∀ ts, startElement (if rx then "RxPdo" else "TxPdo") [] ts (inside c) = some (ts, inPdo rx c {} {}) :=
    fun _ => by cases rx <;> rfl
  have hname : ∀ ts, startElement "Name" [] ts (inPdo rx c {} {}) =
      (readElementText ts).map fun r => (r.2, inPdo rx { c with name := r.1 } {} {}) := fun _ => rfl
  have hclose : ∀ (c : EsiDeviceInfo) (pdo : EsiPdoAssignment),
      closeElement known (if rx then "RxPdo" else "TxPdo") (inPdo rx c pdo {}) = inside (if rx then { c with rxPdos := c.rxPdos ++ [pdo] } else { c with txPdos := c.txPdos ++ [pdo] }) :=
    fun _ _ => by cases rx <;> rfl
  have hentries (ts : List Token) :=
    run_each known (fun x : EsiDeviceInfo × EsiPdoAssignment => inPdo rx x.1 x.2 {}) entryPieces addEntry
      (fun e x ts => run_entry known rx x.1 x.2 e ts) pdo.entries ({ c with name := pdo.name }, {}) ts
  unfold writePdo
  simp only [tokensOf_append, List.append_assoc]
  rw [run_opened known hstart, run_passed known (fun _ => rfl) rfl, leaf,
    run_text known (f := fun text => inPdo rx { c with name := text } {} {}) hname, hentries, foldl_addEntry, run_closed,
    hclose]
  cases rx <;> rfl

theorem foldl_addPdo (rx : Bool) (pdos : List EsiPdoAssignment) (c : EsiDeviceInfo) :
    pdos.foldl (addPdo rx) c =
      if rx then { c with name := pdos.foldl (fun _ pdo => pdoName pdo) c.name, rxPdos := c.rxPdos ++ pdos.map (·.reread) }
      else { c with name := pdos.foldl (fun _ pdo => pdoName pdo) c.name, txPdos := c.txPdos ++ pdos.map (·.reread) } := by
  induction pdos generalizing c with
  | nil => cases rx <;> simp
  | cons pdo pdos ih =>
    rw [List.foldl_cons, ih]
    cases rx <;> simp [addPdo]

end

/-! ## Numbers -/

/-- The number that is read back: a negative one is written with 64 bits. -/
def rereadNumber (n : Int32) : Int32 := if 0 ≤ n then n else 0

theorem hex_ne_nil (n : Int32) : hex n ≠ [] := Nat.toDigits_ne_nil

theorem parseHexOrDec_hex (n : Int32) : parseHexOrDec (['#', 'x'] ++ hex n) = rereadNumber n := by
  have hdigits : ∀ c ∈ hex n, isDigitOf 16 c = true := isDigitOf_toDigits (by decide) (by decide)
  have htrim : trim (['#', 'x'] ++ hex n) = '#' :: 'x' :: hex n :=
    trim_of_not_space (List.forall_mem_cons.2 ⟨by decide, List.forall_mem_cons.2 ⟨by decide, fun c hc =>
      not_isSpace_of_digitVal (Nat.lt_trans (isDigitOf_iff.1 (hdigits c hc)) (by decide))⟩⟩)
  have hvalue : ofDigits 16 (hex n) = (n.toInt % 2 ^ 64).toNat := ofDigits_toDigits (by decide) (by decide) _
  have hlow : -2 ^ 31 ≤ n.toInt := Int32.le_toInt n
  have hhigh : n.toInt < 2 ^ 31 := Int32.toInt_lt n
  have hnonneg : 0 ≤ n ↔ 0 ≤ n.toInt := Int32.le_iff_toInt_le
  unfold parseHexOrDec rereadNumber
  rw [htrim]
  simp only [true_or, if_true, toInt, toSigned_digits (by decide : 16 ≤ 16) (hex_ne_nil n) hdigits, hvalue]
  by_cases h : 0 ≤ n
  · have hpos := hnonneg.1 h
    have hsame : (((n.toInt % 2 ^ 64).toNat : Nat) : Int) = n.toInt := by omega
    rw [if_pos h, if_pos (by omega), Option.getD_some, hsame, Int32.ofInt_toInt]
  · have hneg : n.toInt < 0 := by
      by_contra hle
      exact h (hnonneg.2 (Int.not_lt.1 hle))
    rw [if_neg h, if_neg (by omega)]
    rfl

theorem toInt_intText (n : Int32) : toInt 10 (QJson.intText n.toInt) = some n.toInt :=
  toSigned_eq_some.2 ⟨integer_intText _, Int32.le_toInt n, Int32.toInt_lt n⟩
section
variable (known : Text → Bool)

theorem run_name (c : EsiDeviceInfo) (n : Nat) (text : Text) (ts : List Token) :
    run known (tokensOf (leaf n "Name" text) ++ ts) (inside c) = run known ts (inside { c with name := text }) :=
  run_text known (f := fun text => inside { c with name := text }) (fun _ => rfl) n text ts

theorem run_desc {c : EsiDeviceInfo} (h : c.description = []) (n : Nat) (text : Text) (ts : List Token) :
    run known (tokensOf (optionalLeaf n "Desc" [] text) ++ ts) (inside c) =
      run known ts (inside { c with description := text }) := by
  have hdescribed : (if text = [] then inside c else inside { c with description := [] ++ text }) =
      inside { c with description := text } := by
    split
    · rename_i hempty
      rw [hempty, ← h]
    · rfl
  rw [run_optional known (f := fun text => inside { c with description := text }) fun _ => rfl, hdescribed]

def addSm (c : EsiDeviceInfo) (sm : EsiSyncManager) : EsiDeviceInfo := { c with syncManagers := c.syncManagers ++ [sm] }

theorem run_sm (c : EsiDeviceInfo) (sm : EsiSyncManager) (ts : List Token) :
    run known (tokensOf (smPieces sm) ++ ts) (inside c) = run known ts (inside (addSm c sm)) := by
  let attributes := [("Index", QJson.intText sm.index.toInt), ("Dir", sm.direction)]
  have hstart : ∀ ts, startElement "Sm" attributes ts (inside c) =
      some (ts, { inside (addSm c sm) with inSm := true }) := by
    intro ts
    have hread : EsiSyncManager.mk (Int32.ofInt ((toInt 10 (attr attributes "Index")).getD 0)) (attr attributes "Dir") = sm := by
      change EsiSyncManager.mk (Int32.ofInt ((toInt 10 (QJson.intText sm.index.toInt)).getD 0)) sm.direction = sm
      rw [toInt_intText, Option.getD_some, Int32.ofInt_toInt]
    change some (ts, { inside (addSm c _) with inSm := true }) = _
    rw [hread]
  unfold smPieces
  rw [run_line]
  change run known (.start "Sm" attributes :: .close "Sm" :: .character '\n' :: ts) (inside c) = _
  rw [run_start known (hstart _), run_close]
  rfl

theorem foldl_addSm (sms : List EsiSyncManager) (c : EsiDeviceInfo) :
    sms.foldl addSm c = { c with syncManagers := c.syncManagers ++ sms } := by
  induction sms generalizing c with
  | nil => simp
  | cons sm sms ih => rw [List.foldl_cons, ih, addSm, List.append_assoc, List.singleton_append]

/-- What is read of the attributes and the text of `Type`. -/
def typed (dev : EsiDeviceInfo) : EsiDeviceInfo :=
  { name := dev.name, vendorId := rereadNumber dev.vendorId, productCode := rereadNumber dev.productCode,
    revisionNo := rereadNumber dev.revisionNo }

theorem run_type (dev : EsiDeviceInfo) (ts : List Token) :
    run known (tokensOf (typePieces dev) ++ ts) (inside {}) = run known ts (inside (typed dev)) := by
  let attributes := [("ProductCode", ['#', 'x'] ++ hex dev.productCode), ("RevisionNo", ['#', 'x'] ++ hex dev.revisionNo),
    ("VendorId", ['#', 'x'] ++ hex dev.vendorId)]
  have hstart : ∀ ts, startElement "Type" attributes ts (inside {}) =
      (readElementText ts).map fun r => (r.2, inside (typeElement attributes {} r.1)) := fun _ => rfl
  have htyped : typeElement attributes {} dev.name = typed dev := by
    have hv : parseHexOrDec (attr attributes "VendorId") = rereadNumber dev.vendorId := parseHexOrDec_hex _
    have hp : parseHexOrDec (attr attributes "ProductCode") = rereadNumber dev.productCode := parseHexOrDec_hex _
    have hr : parseHexOrDec (attr attributes "RevisionNo") = rereadNumber dev.revisionNo := parseHexOrDec_hex _
    have ht : attr attributes "Type" = [] := rfl
    -- a number that is not set is zero before it, too
    have hset (n : Int32) (f : Int32 → EsiDeviceInfo) : (if n ≠ 0 then f n else f 0) = f n := by
      by_cases h : n = 0
      · rw [if_neg (not_not.2 h), h]
      · rw [if_pos h]
    have hvendor := hset (rereadNumber dev.vendorId) fun n => { vendorId := n }
    have hproduct := hset (rereadNumber dev.productCode) fun n => { vendorId := rereadNumber dev.vendorId, productCode := n }
    have hrevision := hset (rereadNumber dev.revisionNo) fun n =>
      { vendorId := rereadNumber dev.vendorId, productCode := rereadNumber dev.productCode, revisionNo := n }
    have htext : (if dev.name = [] then [] else dev.name) = dev.name := by
      split
      · rename_i h
        exact h.symm
      · rfl
    unfold typeElement typed
    simp only [hv, hp, hr, ht, hvendor, hproduct, hrevision, ne_eq, not_true, if_false, htext]
  unfold typePieces
  rw [run_text known (f := fun text => inside (typeElement attributes {} text)) hstart, htyped]

/-- The device that is read, with the last name in its element. -/
def EsiDeviceInfo.reread (dev : EsiDeviceInfo) : EsiDeviceInfo :=
  { typed dev with
    name := (dev.rxPdos ++ dev.txPdos).foldl (fun _ pdo => pdoName pdo) dev.name
    description := dev.description
    syncManagers := dev.syncManagers
    rxPdos := dev.rxPdos.map (·.reread)
    txPdos := dev.txPdos.map (·.reread) }

theorem foldl_read (dev : EsiDeviceInfo) :
    dev.txPdos.foldl (addPdo false)
      (dev.rxPdos.foldl (addPdo true) (dev.syncManagers.foldl addSm { typed dev with description := dev.description })) =
        dev.reread := by
  rw [foldl_addSm, foldl_addPdo, foldl_addPdo]
  simp [EsiDeviceInfo.reread, typed]

/-- **The loop over a device's tokens** gets to the end of its element with what is read of it. -/
theorem run_document (dev : EsiDeviceInfo) :
    run known (tokensOf (document dev)) {} =
      some { closeDevice known (inside dev.reread) with inDescriptions := false } := by
  have hrx (c : EsiDeviceInfo) (ts : List Token) :=
    run_each known inside (writePdo "RxPdo") (addPdo true) (fun pdo c ts => run_pdo known true c pdo ts) dev.rxPdos c ts
  have htx (c : EsiDeviceInfo) (ts : List Token) :=
    run_each known inside (writePdo "TxPdo") (addPdo false) (fun pdo c ts => run_pdo known false c pdo ts) dev.txPdos c ts
  have hsm (c : EsiDeviceInfo) (ts : List Token) :=
    run_each known inside smPieces addSm (fun sm c ts => run_sm known c sm ts) dev.syncManagers c ts
  have hopen (ts : List Token) : run known (tokensOf (line 4 [.start "Device" []]) ++ ts) { inDescriptions := true } =
      run known ts (inside {}) := run_opened known (fun _ => rfl) 4 ts
  have hdeclaration (ts : List Token) : run known (tokensOf (line 0 [.declaration]) ++ ts) {} = run known ts {} := by
    rw [run_line]
    rfl
  have hend (s : ImportState) : run known (tokensOf (line 0 [.close "EtherCATInfo"])) s = some s := rfl
  unfold document
  simp only [tokensOf_append, List.append_assoc]
  rw [hdeclaration, run_opened known (t := {}) (fun _ => rfl),
    run_opened known (t := { inDescriptions := true }) (fun _ => rfl), hopen, run_type, run_name, run_desc known rfl, hsm,
    hrx, htx, run_closed, run_closed, hend]
  change some (closeElement known "Descriptions" (closeElement known "Device" (inside (dev.txPdos.foldl (addPdo false)
    (dev.rxPdos.foldl (addPdo true) (dev.syncManagers.foldl addSm { typed dev with description := dev.description })))))) = _
  rw [foldl_read]
  rfl

end

/-! ## Reading what was written -/

def EsiDeviceInfo.key (dev : EsiDeviceInfo) : Text := deviceKey dev.vendorId dev.productCode

/-- The fields that are written. -/
def EsiDeviceInfo.exported (dev : EsiDeviceInfo) : EsiDeviceInfo := { dev with deviceId := [], type := [] }

def EsiService.known (s : EsiService) (key : Text) : Bool := (s.deviceIndex.value key).isSome

theorem exportEsi_ok {writable : Bool} {deviceId : Text} {path : String} {s : EsiService} {files files' : Files}
    (h : exportEsi writable deviceId path s files = (true, files')) :
    path ≠ "" ∧ ∃ dev, ((s.deviceIndex.value deviceId).bind fun i => s.devices[i]?) = some dev ∧
      files' path = some (textOf (document dev)) := by
  unfold exportEsi at h
  split at h
  · cases h
  · rename_i hpath
    refine ⟨hpath, ?_⟩
    split at h
    · cases h
    · rename_i dev hdev
      split at h
      · cases h
        exact ⟨dev, hdev, if_pos rfl⟩
      · cases h

/-- What an import makes of a device's file. -/
theorem importEsi_document {read : Reader} {files : Files} {path : String} {dev : EsiDeviceInfo} (hpath : path ≠ "")
    (hfile : files path = some (textOf (document dev)))
    (hread : read (textOf (document dev)) = (tokensOf (document dev), none)) (s : EsiService) : importEsi read files path s =
      if dev.reread.vendorId ≠ 0 ∧ s.known dev.reread.key = false then
        (true, { s.add { dev.reread with deviceId := dev.reread.key } with imported := s.imported ++ [s.devices.length + 1] })
      else s.error (arg "No ESI devices found: %1" path) := by
  have hrun : importLoop (fun key => (s.deviceIndex.value key).isSome) (tokensOf (document dev)).length
      (tokensOf (document dev)) {} = some { closeDevice s.known (inside dev.reread) with inDescriptions := false } :=
    run_document s.known dev
  have hclosed : (closeDevice s.known (inside dev.reread)).parsedDevices =
      if dev.reread.vendorId ≠ 0 ∧ s.known dev.reread.key = false then [{ dev.reread with deviceId := dev.reread.key }]
      else [] := by
    change (if true && dev.reread.vendorId ≠ 0 && !s.known dev.reread.key && !false then
      [{ dev.reread with deviceId := dev.reread.key }] else []) = _
    simp
  unfold importEsi
  simp only [if_neg hpath, hfile, hread, hrun, hclosed]
  split
  · simp [EsiService.add]
  · rfl

/-- The import adds one device, and that is the one that was written. -/
def Restored (read : Reader) (files : Files) (path : String) (s : EsiService) (dev : EsiDeviceInfo) : Prop :=
  ∃ s' d, importEsi read files path s = (true, s') ∧ s'.devices = s.devices ++ [d] ∧ d.exported = dev.exported

/-- Without what the reader does not find. -/
def EsiPdoAssignment.Blank (pdo : EsiPdoAssignment) : Prop := pdo.index = [] ∧ pdo.name = [] ∧ ∀ e ∈ pdo.entries, e = {}

structure Restorable (s : EsiService) (dev : EsiDeviceInfo) : Prop where
  vendorId : 0 < dev.vendorId
  productCode : 0 ≤ dev.productCode
  revisionNo : 0 ≤ dev.revisionNo
  fresh : s.known dev.key = false
  blank : ∀ pdo ∈ dev.rxPdos ++ dev.txPdos, pdo.Blank
  named : dev.rxPdos ++ dev.txPdos = [] ∨ dev.name = []

theorem rereadNumber_eq_iff {n : Int32} : rereadNumber n = n ↔ 0 ≤ n := by
  unfold rereadNumber
  split
  · rename_i h
    exact iff_of_true rfl h
  · rename_i h
    refine iff_of_false ?_ h
    rintro rfl
    exact h (by decide)

theorem entry_reread_iff {e : EsiPdoEntry} : e.reread = e ↔ e = {} := by
  constructor
  · intro h
    have htype : (if e.type = [] then [] else ['#', 'x'] ++ e.type) = e.type := congrArg EsiPdoEntry.type h
    have hempty : e.type = [] := by
      by_contra hne
      rw [if_neg hne] at htype
      have hlength := congrArg List.length htype
      rw [List.length_append] at hlength
      exact absurd hlength (by simp)
    rw [← h, EsiPdoEntry.reread, if_pos hempty]
  · rintro rfl
    rfl

theorem pdo_reread_iff {pdo : EsiPdoAssignment} : pdo.reread = pdo ↔ pdo.Blank := by
  have hentries : pdo.entries.map (·.reread) = pdo.entries ↔ ∀ e ∈ pdo.entries, e = {} := by
    have hid := List.map_inj_left (l := pdo.entries) (f := (·.reread)) (g := id)
    rw [List.map_id] at hid
    exact hid.trans (forall₂_congr fun _ _ => entry_reread_iff)
  obtain ⟨index, name, entries⟩ := pdo
  simp only [EsiPdoAssignment.reread, EsiPdoAssignment.mk.injEq, EsiPdoAssignment.Blank] at hentries ⊢
  rw [hentries, eq_comm (a := []), eq_comm (a := [])]

theorem pdos_reread_iff {pdos : List EsiPdoAssignment} : pdos.map (·.reread) = pdos ↔ ∀ pdo ∈ pdos, pdo.Blank := by
  have hid := List.map_inj_left (l := pdos) (f := (·.reread)) (g := id)
  rw [List.map_id] at hid
  exact hid.trans (forall₂_congr fun _ _ => pdo_reread_iff)

/-- A blank PDO leaves no name. -/
theorem pdoName_of_blank {pdo : EsiPdoAssignment} (h : pdo.Blank) : pdoName pdo = [] := by
  obtain ⟨-, hname, hentries⟩ := h
  have hfold : ∀ es : List EsiPdoEntry, (∀ e ∈ es, e = {}) → es.foldl entryName [] = [] := by
    intro es hes
    induction es with
    | nil => rfl
    | cons e es ih =>
      rw [List.foldl_cons, hes e List.mem_cons_self]
      exact ih fun e' he' => hes e' (List.mem_cons_of_mem _ he')
  rw [pdoName, hname]
  exact hfold pdo.entries hentries

theorem name_of_blank {pdos : List EsiPdoAssignment} (h : ∀ pdo ∈ pdos, pdo.Blank) (name : Text) :
    pdos.foldl (fun _ pdo => pdoName pdo) name = name ↔ pdos = [] ∨ name = [] := by
  induction pdos using List.reverseRecOn with
  | nil => simp
  | append_singleton pdos pdo _ =>
    rw [List.foldl_concat, pdoName_of_blank (h pdo (by simp)), eq_comm]
    simp

theorem exported_reread_iff {dev : EsiDeviceInfo} : dev.reread.exported = dev.exported ↔
    0 ≤ dev.vendorId ∧ 0 ≤ dev.productCode ∧ 0 ≤ dev.revisionNo ∧ (∀ pdo ∈ dev.rxPdos ++ dev.txPdos, pdo.Blank) ∧
      (dev.rxPdos ++ dev.txPdos = [] ∨ dev.name = []) := by
  have hpdos : (∀ pdo ∈ dev.rxPdos ++ dev.txPdos, pdo.Blank) ↔
      dev.rxPdos.map (·.reread) = dev.rxPdos ∧ dev.txPdos.map (·.reread) = dev.txPdos := by
    rw [List.forall_mem_append, pdos_reread_iff, pdos_reread_iff]
  have hexported : dev.reread.exported = dev.exported ↔
      (dev.rxPdos ++ dev.txPdos).foldl (fun _ pdo => pdoName pdo) dev.name = dev.name ∧
        rereadNumber dev.vendorId = dev.vendorId ∧ rereadNumber dev.productCode = dev.productCode ∧
        rereadNumber dev.revisionNo = dev.revisionNo ∧ dev.rxPdos.map (·.reread) = dev.rxPdos ∧
        dev.txPdos.map (·.reread) = dev.txPdos := by
    simp [EsiDeviceInfo.exported, EsiDeviceInfo.reread, typed]
  rw [hexported, ← hpdos, rereadNumber_eq_iff, rereadNumber_eq_iff, rereadNumber_eq_iff]
  constructor
  · rintro ⟨hname, hv, hp, hr, hblank⟩
    exact ⟨hv, hp, hr, hblank, (name_of_blank hblank _).1 hname⟩
  · rintro ⟨hv, hp, hr, hblank, hname⟩
    exact ⟨(name_of_blank hblank _).2 hname, hv, hp, hr, hblank⟩

theorem restored_iff {read : Reader} {files : Files} {path : String} {dev : EsiDeviceInfo} (hpath : path ≠ "")
    (hfile : files path = some (textOf (document dev)))
    (hread : read (textOf (document dev)) = (tokensOf (document dev), none)) (s : EsiService) : Restored read files path s dev ↔ Restorable s dev := by
  have hsame (h : 0 ≤ dev.vendorId ∧ 0 ≤ dev.productCode) : dev.reread.vendorId = dev.vendorId ∧ dev.reread.key = dev.key := by
    have hv : dev.reread.vendorId = dev.vendorId := rereadNumber_eq_iff.2 h.1
    have hp : dev.reread.productCode = dev.productCode := rereadNumber_eq_iff.2 h.2
    exact ⟨hv, by rw [EsiDeviceInfo.key, hv, hp, ← EsiDeviceInfo.key]⟩
  have hpositive (h : 0 ≤ dev.vendorId) : dev.vendorId ≠ 0 ↔ 0 < dev.vendorId :=
    ⟨fun hne => Int32.lt_of_le_of_ne h hne.symm, fun hlt => (Int32.ne_of_lt hlt).symm⟩
  unfold Restored
  rw [importEsi_document hpath hfile hread]
  constructor
  · rintro ⟨s', d, himport, hdevices, hexported⟩
    split at himport
    · rename_i hnew
      cases himport
      have hd : { dev.reread with deviceId := dev.reread.key } = d := by
        simpa [EsiService.add] using hdevices
      subst hd
      obtain ⟨hv, hp, hr, hblank, hname⟩ := exported_reread_iff.1 hexported
      rw [(hsame ⟨hv, hp⟩).1, (hsame ⟨hv, hp⟩).2] at hnew
      exact ⟨(hpositive hv).1 hnew.1, hp, hr, hnew.2, hblank, hname⟩
    · cases himport
  · intro h
    have hv : 0 ≤ dev.vendorId := Int32.le_of_lt h.vendorId
    obtain ⟨hvendor, hkey⟩ := hsame ⟨hv, h.productCode⟩
    rw [if_pos ⟨hvendor ▸ (hpositive hv).2 h.vendorId, hkey ▸ h.fresh⟩]
    exact ⟨_, _, rfl, rfl, exported_reread_iff.2 ⟨hv, h.productCode, h.revisionNo, h.blank, h.named⟩⟩

/-- A text between tags that stands for itself. -/
def Literal (text : Text) : Prop :=
  (∀ c ∈ text, (c = '\t' ∨ c = '\n' ∨ 32 ≤ c.toNat) ∧ c ∉ ['<', '&', '\uFFFE', '\uFFFF']) ∧ ¬ [']', ']', '>'] <:+: text

/-- A value of an attribute that stands for itself. -/
def LiteralValue (text : Text) : Prop := ∀ c ∈ text, 32 ≤ c.toNat ∧ c ∉ ['<', '&', '"', '\uFFFE', '\uFFFF']

/-- Nothing that goes into the file has markup in it. -/
structure EsiDeviceInfo.Plain (dev : EsiDeviceInfo) : Prop where
  name : Literal dev.name
  description : Literal dev.description
  directions : ∀ sm ∈ dev.syncManagers, LiteralValue sm.direction
  pdos : ∀ pdo ∈ dev.rxPdos ++ dev.txPdos, Literal pdo.index ∧ Literal pdo.name ∧
    ∀ e ∈ pdo.entries, Literal e.index ∧ Literal e.subIndex ∧ Literal e.name ∧ Literal e.type

/-- **A device comes back** exactly if there is nothing in its PDOs that the reader
looks for elsewhere, with no name of its own beside them, its numbers are not
negative, the vendor is not zero, and no such device is there already. -/
theorem reimport_iff {read : Reader} {writable : Bool} {deviceId : Text} {path : String} {s₀ : EsiService}
    {files files' : Files} {dev : EsiDeviceInfo} (hexport : exportEsi writable deviceId path s₀ files = (true, files'))
    (hdev : ((s₀.deviceIndex.value deviceId).bind fun i => s₀.devices[i]?) = some dev) (hplain : dev.Plain)
    (hread : dev.Plain → read (textOf (document dev)) = (tokensOf (document dev), none)) (s : EsiService) :
    Restored read files' path s dev ↔ Restorable s dev := by
  obtain ⟨hpath, dev', hdev', hfile⟩ := exportEsi_ok hexport
  obtain rfl : dev = dev' := Option.some.inj (hdev.symm.trans hdev')
  exact restored_iff hpath hfile (hread hplain) s

/-- A reader of one file. -/
def readerOf (dev : EsiDeviceInfo) : Reader := fun text =>
  if text = textOf (document dev) then (tokensOf (document dev), none) else ([], some "Premature end of document.".toList)

def library (dev : EsiDeviceInfo) : EsiService := EsiService.add {} dev

/-- The file system behind an export from it. -/
def written (dev : EsiDeviceInfo) : Files := (exportEsi true dev.deviceId "device.xml" (library dev) fun _ => none).2

theorem library_value (dev : EsiDeviceInfo) :
    ((library dev).deviceIndex.value dev.deviceId).bind (fun i => (library dev).devices[i]?) = some dev := by
  simp [library, EsiService.add]

theorem exportEsi_library (dev : EsiDeviceInfo) :
    exportEsi true dev.deviceId "device.xml" (library dev) (fun _ => none) = (true, written dev) := by
  unfold written exportEsi
  rw [if_neg (by decide), library_value]
  rfl

def letter (c : Char) : Bool :=
  ('a'.toNat ≤ c.toNat && c.toNat ≤ 'z'.toNat) || ('0'.toNat ≤ c.toNat && c.toNat ≤ '9'.toNat)

theorem ne_of_letter {c d : Char} (h : letter c = true) (hd : letter d = false) : c ≠ d := by
  rintro rfl
  rw [hd] at h
  cases h

theorem literalValue_of_letters {text : Text} (h : text.all letter = true) : LiteralValue text := by
  intro c hc
  have hletter := List.all_eq_true.1 h c hc
  have hrange : 32 ≤ c.toNat := by
    simp only [letter, Bool.or_eq_true, Bool.and_eq_true, decide_eq_true_eq] at hletter
    have ha : 'a'.toNat = 97 := rfl
    have h0 : '0'.toNat = 48 := rfl
    omega
  refine ⟨hrange, ?_⟩
  simp only [List.mem_cons, List.not_mem_nil, or_false, not_or]
  exact ⟨ne_of_letter hletter rfl, ne_of_letter hletter rfl, ne_of_letter hletter rfl, ne_of_letter hletter rfl,
    ne_of_letter hletter rfl⟩

theorem literal_of_letters {text : Text} (h : text.all letter = true) : Literal text := by
  have hvalue := literalValue_of_letters h
  refine ⟨fun c hc => ⟨.inr (.inr (hvalue c hc).1), ?_⟩, fun hend => ?_⟩
  · have hout := (hvalue c hc).2
    simp only [List.mem_cons, List.not_mem_nil, or_false, not_or] at hout ⊢
    exact ⟨hout.1, hout.2.1, hout.2.2.2.1, hout.2.2.2.2⟩
  · have hmem : ']' ∈ text := hend.subset List.mem_cons_self
    exact absurd (List.all_eq_true.1 h _ hmem) (by decide)

def drive : EsiDeviceInfo :=
  { deviceId := "00000002:044c2c52".toList, name := "ek1100".toList, description := "coupler".toList, vendorId := 2,
    productCode := 0x44c2c52, revisionNo := 0x120000, syncManagers := [{ direction := "out".toList }] }

theorem drive_plain : drive.Plain where
  name := literal_of_letters (by decide)
  description := literal_of_letters (by decide)
  directions := by
    intro sm hsm
    obtain rfl := List.mem_singleton.1 hsm
    exact literalValue_of_letters (by decide)
  pdos := fun _ h => (List.not_mem_nil h).elim

theorem drive_restored : Restored (readerOf drive) (written drive) "device.xml" {} drive :=
  (reimport_iff (exportEsi_library drive) (library_value drive) drive_plain (fun _ => if_pos rfl) {}).2
    ⟨by decide, by decide, by decide, rfl, (nomatch ·, ·), .inl rfl⟩

/-- With one input of 16 bits. -/
def sensor : EsiDeviceInfo :=
  let entry : EsiPdoEntry := { index := "6000".toList, subIndex := "1".toList, bitSize := 16 }
  { vendorId := 2, txPdos := [{ index := "1a00".toList, entries := [entry] }] }

theorem pdo_lost : sensor.Plain ∧ ¬ Restored (readerOf sensor) (written sensor) "device.xml" {} sensor := by
  have hempty : Literal [] := literal_of_letters rfl
  refine ⟨⟨hempty, hempty, fun _ h => (List.not_mem_nil h).elim, fun pdo hpdo => ?_⟩, fun h => ?_⟩
  · obtain rfl := List.mem_singleton.1 hpdo
    refine ⟨literal_of_letters (by decide), hempty, fun e he => ?_⟩
    obtain rfl := List.mem_singleton.1 he
    exact ⟨literal_of_letters (by decide), literal_of_letters (by decide), hempty, hempty⟩
  · have hrestorable := (restored_iff (by decide) rfl (if_pos rfl) {}).1 h
    exact absurd (hrestorable.blank _ List.mem_cons_self).1 (by decide)

end NekoEcat.L4.Esi
