import NekoEcat.Core.Markup
import NekoEcat.Core.QNumber
import NekoEcat.Core.Reading

/-!
# ENI documents (`EniGenerator`)

The generator writes a master and its slaves as XML text, line by line. The texts of the
user go through `xmlEscape`; a comment, the name of an entry, an alias and the mailbox,
process data and commands of a slave are left out if there are none.

* `unescape_xmlEscape`, `xmlEscape_plain`: the escaping is undone, and leaves no markup.
* `document_mapTexts`: the texts of the user are nowhere else in a document.
* `generate_balanced`: every document is balanced.
* `recover_generate`: the configuration is read back of it.

Limitations: addresses wrap where the sum does not fit an `int`.
-/
namespace NekoEcat.L1.Eni
open NekoEcat.Markup NekoEcat.QNumber NekoEcat.Reading

abbrev Text := List Char

/-! ## The code -/

/-- mirrors src/core/EniGenerator.h:35-41 -/
structure EniStartupCommand where
  transition : Text
  index : UInt16 := 0
  subIndex : UInt8 := 0
  dataHex : Text
  comment : Text
  deriving DecidableEq

/-- mirrors src/core/EniGenerator.h:44-49 -/
structure EniPdoEntry where
  index : UInt16 := 0
  subIndex : UInt8 := 0
  bitLength : UInt8 := 0
  name : Text
  deriving DecidableEq

/-- mirrors src/core/EniGenerator.h:52-57 -/
structure EniPdo where
  index : UInt16 := 0
  name : Text
  isTxPdo : Bool := false
  entries : List EniPdoEntry
  deriving DecidableEq

/-- mirrors src/core/EniGenerator.h:60-76 -/
structure EniSlaveConfig where
  position : Int32 := -1
  alias_ : UInt16 := 0
  name : Text
  vendorId : UInt32 := 0
  productCode : UInt32 := 0
  revisionNo : UInt32 := 0
  supportsCoE : Bool := false
  supportsEoE : Bool := false
  supportsFoE : Bool := false
  supportsSoE : Bool := false
  pdos : List EniPdo
  startupCmds : List EniStartupCommand
  deriving DecidableEq

/-- mirrors src/core/EniGenerator.h:102-104 -/
structure EniGenerator where
  masterName : Text := "EtherCAT Master".toList
  cycleTimeUs : Int32 := 1000
  slaves : List EniSlaveConfig := []
  deriving DecidableEq

/-- `out.replace(before, after)` -/
def replace (before : Char) (after : String) (t : Text) : Text :=
  t.flatMap fun c => if c = before then after.toList else [c]

/-- mirrors src/core/EniGenerator.cpp:15-23 -/
def xmlEscape (t : Text) : Text :=
  replace '\'' "&apos;" (replace '"' "&quot;" (replace '>' "&gt;" (replace '<' "&lt;" (replace '&' "&amp;" t))))

/-- What is written: a text of the program, or one of the user. -/
inductive Piece where
  | plain (t : Text)
  | user (t : Text)

def Piece.text : Piece → Text
  | .plain t => t
  | .user t => xmlEscape t

def textOf (pieces : List Piece) : Text := pieces.flatMap Piece.text

/-- The elements of a document. -/
inductive Tag where
  | etherCATConfig
  | config
  | master
  | info
  | name
  | source
  | cyclicFrames
  | frame
  | cmd
  | cycle
  | slave
  | physAddr
  | autoIncAddr
  | alias_
  | vendorId
  | productCode
  | revisionNo
  | mailbox
  | coE
  | eoE
  | foE
  | soE
  | processData
  | txPdo
  | rxPdo
  | index
  | entry
  | subIndex
  | bitLen
  | initCmds
  | initCmd
  | transition
  | data
  | comment

def Tag.text : Tag → Text
  | .etherCATConfig => "EtherCATConfig".toList
  | .config => "Config".toList
  | .master => "Master".toList
  | .info => "Info".toList
  | .name => "Name".toList
  | .source => "Source".toList
  | .cyclicFrames => "CyclicFrames".toList
  | .frame => "Frame".toList
  | .cmd => "Cmd".toList
  | .cycle => "Cycle".toList
  | .slave => "Slave".toList
  | .physAddr => "PhysAddr".toList
  | .autoIncAddr => "AutoIncAddr".toList
  | .alias_ => "Alias".toList
  | .vendorId => "VendorId".toList
  | .productCode => "ProductCode".toList
  | .revisionNo => "RevisionNo".toList
  | .mailbox => "Mailbox".toList
  | .coE => "CoE".toList
  | .eoE => "EoE".toList
  | .foE => "FoE".toList
  | .soE => "SoE".toList
  | .processData => "ProcessData".toList
  | .txPdo => "TxPdo".toList
  | .rxPdo => "RxPdo".toList
  | .index => "Index".toList
  | .entry => "Entry".toList
  | .subIndex => "SubIndex".toList
  | .bitLen => "BitLen".toList
  | .initCmds => "InitCmds".toList
  | .initCmd => "InitCmd".toList
  | .transition => "Transition".toList
  | .data => "Data".toList
  | .comment => "Comment".toList

def Tag.attributes : Tag → List (Text × Text)
  | .etherCATConfig =>
    [("xmlns:xsi".toList, "http://www.w3.org/2001/XMLSchema-instance".toList),
     ("xmlns".toList, "http://www.ethercat.org/2007/EtherCATInfo".toList), ("Version".toList, "1.0".toList)]
  | .txPdo | .rxPdo => [("Fixed".toList, "1".toList), ("Mandatory".toList, "0".toList)]
  | _ => []

def indent (n : Nat) : Text := List.replicate n ' '

/-- What a line starts with, `s << "  <Tag>"`. -/
def opening (n : Nat) (tag : Tag) : Text := indent n ++ openTag tag.text tag.attributes

/-- What a line ends with, `"</Tag>\n"`. -/
def closing (tag : Tag) : Text := closeTag tag.text ++ ['\n']

/-- `s << opening << content << closing` -/
def element (n : Nat) (tag : Tag) (content : Piece) : List Piece :=
  [.plain (opening n tag), content, .plain (closing tag)]

def openLine (n : Nat) (tag : Tag) : Text := opening n tag ++ ['\n']

def closeLine (n : Nat) (tag : Tag) : Text := indent n ++ closing tag

/-- The lines of an element, between those of its tags. -/
def block (n : Nat) (tag : Tag) (pieces : List Piece) : List Piece :=
  [.plain (openLine n tag)] ++ pieces ++ [.plain (closeLine n tag)]

/-- `s << "  <Tag/>\n"` -/
def emptyLine (n : Nat) (tag : Tag) : Text := indent n ++ emptyTag tag.text ++ ['\n']

def number (n : Int) : Piece := .plain (QJson.intText n)

/-- `"#x" << QString::number(n, 16).rightJustified(4, '0')` -/
def hex (n : UInt16) : Piece := .plain ('#' :: 'x' :: (Nat.toDigits 16 n.toNat).leftpad 4 '0')

def onlyIf (b : Bool) (pieces : List Piece) : List Piece := if b then pieces else []

/-- mirrors src/core/EniGenerator.cpp:25-43 -/
def buildMailbox (slave : EniSlaveConfig) : List Piece :=
  onlyIf (slave.supportsCoE || slave.supportsEoE || slave.supportsFoE || slave.supportsSoE)
    (block 6 .mailbox
      (onlyIf slave.supportsCoE [.plain (emptyLine 8 .coE)] ++ onlyIf slave.supportsEoE [.plain (emptyLine 8 .eoE)] ++
        onlyIf slave.supportsFoE [.plain (emptyLine 8 .foE)] ++ onlyIf slave.supportsSoE [.plain (emptyLine 8 .soE)]))

/-- mirrors src/core/EniGenerator.cpp:59-68 -/
def buildEntry (e : EniPdoEntry) : List Piece :=
  block 10 .entry
    (element 12 .index (hex e.index) ++ element 12 .subIndex (number e.subIndex.toNat) ++
      element 12 .bitLen (number e.bitLength.toNat) ++ onlyIf (!e.name.isEmpty) (element 12 .name (.user e.name)))

def pdoTag (isTxPdo : Bool) : Tag := if isTxPdo then .txPdo else .rxPdo

/-- mirrors src/core/EniGenerator.cpp:54-70 -/
def buildPdo (pdo : EniPdo) : List Piece :=
  block 8 (pdoTag pdo.isTxPdo)
    (element 10 .index (hex pdo.index) ++ element 10 .name (.user pdo.name) ++ pdo.entries.flatMap buildEntry)

/-- mirrors src/core/EniGenerator.cpp:45-74 -/
def buildProcessData (slave : EniSlaveConfig) : List Piece :=
  onlyIf (!slave.pdos.isEmpty) (block 6 .processData (slave.pdos.flatMap buildPdo))

/-- mirrors src/core/EniGenerator.cpp:84-94 -/
def buildInitCmd (cmd : EniStartupCommand) : List Piece :=
  block 8 .initCmd
    (element 10 .transition (.user cmd.transition) ++ element 10 .index (hex cmd.index) ++
      element 10 .subIndex (number cmd.subIndex.toNat) ++ element 10 .data (.user cmd.dataHex) ++
      onlyIf (!cmd.comment.isEmpty) (element 10 .comment (.user cmd.comment)))

/-- mirrors src/core/EniGenerator.cpp:76-98 -/
def buildInitCmds (slave : EniSlaveConfig) : List Piece :=
  onlyIf (!slave.startupCmds.isEmpty) (block 6 .initCmds (slave.startupCmds.flatMap buildInitCmd))

/-- mirrors src/core/EniGenerator.cpp:103-115 -/
def buildInfo (slave : EniSlaveConfig) : List Piece :=
  block 6 .info
    (element 8 .name (.user slave.name) ++ element 8 .physAddr (number (1001 + slave.position).toInt) ++
      element 8 .autoIncAddr (number (-slave.position &&& 0xFFFF).toInt) ++
      onlyIf (slave.alias_ != 0) (element 8 .alias_ (number slave.alias_.toNat)) ++
      element 8 .vendorId (number slave.vendorId.toNat) ++ element 8 .productCode (number slave.productCode.toNat) ++
      element 8 .revisionNo (number slave.revisionNo.toNat))

/-- mirrors src/core/EniGenerator.cpp:100-122 -/
def buildSlaveElement (slave : EniSlaveConfig) : List Piece :=
  block 4 .slave (buildInfo slave ++ buildMailbox slave ++ buildProcessData slave ++ buildInitCmds slave)

def declaration : Text := declarationTag "xml version=\"1.0\" encoding=\"UTF-8\"".toList ++ ['\n']

def sourceName : Text := "NekoEcat Studio".toList

/-- mirrors src/core/EniGenerator.cpp:134-148 -/
def buildMaster (g : EniGenerator) : List Piece :=
  block 4 .master
    (block 6 .info (element 8 .name (.user g.masterName) ++ element 8 .source (.plain sourceName)) ++
      block 6 .cyclicFrames
        (block 8 .frame (block 10 .cmd (element 12 .cycle (number g.cycleTimeUs.toInt)))))

def document (g : EniGenerator) : List Piece :=
  [.plain declaration] ++
    block 0 .etherCATConfig (block 2 .config (buildMaster g ++ g.slaves.flatMap buildSlaveElement))

/-- mirrors src/core/EniGenerator.cpp:124-156 -/
def generate (g : EniGenerator) : Text := textOf (document g)

/-! ## Escaping -/

/-- The characters of markup. -/
def markup : Text := ['<', '>', '"', '\'']

/-- What stands for a character. -/
def escapeChar (c : Char) : Text :=
  if c = '&' then "&amp;".toList
  else if c = '<' then "&lt;".toList
  else if c = '>' then "&gt;".toList
  else if c = '"' then "&quot;".toList
  else if c = '\'' then "&apos;".toList
  else [c]

def unescape : Text → Text
  | '&' :: 'a' :: 'm' :: 'p' :: ';' :: t => '&' :: unescape t
  | '&' :: 'l' :: 't' :: ';' :: t => '<' :: unescape t
  | '&' :: 'g' :: 't' :: ';' :: t => '>' :: unescape t
  | '&' :: 'q' :: 'u' :: 'o' :: 't' :: ';' :: t => '"' :: unescape t
  | '&' :: 'a' :: 'p' :: 'o' :: 's' :: ';' :: t => '\'' :: unescape t
  | c :: t => c :: unescape t
  | [] => []

theorem replace_append (before : Char) (after : String) (a b : Text) :
    replace before after (a ++ b) = replace before after a ++ replace before after b := List.flatMap_append

theorem replace_other {before c : Char} (h : c ≠ before) (after : String) : replace before after [c] = [c] := by
  rw [replace, List.flatMap_singleton, if_neg h]

/-- The first replacement is that of `&`, so the later ones meet no character of an entity. -/
theorem xmlEscape_eq (t : Text) : xmlEscape t = t.flatMap escapeChar := by
  have hchar : ∀ c, xmlEscape [c] = escapeChar c := by
    intro c
    unfold escapeChar
    split_ifs with hamp hlt hgt hquot hapos
    · subst hamp; rfl
    · subst hlt; rfl
    · subst hgt; rfl
    · subst hquot; rfl
    · subst hapos; rfl
    · rw [xmlEscape, replace_other hamp, replace_other hlt, replace_other hgt, replace_other hquot, replace_other hapos]
  have happend : ∀ a b, xmlEscape (a ++ b) = xmlEscape a ++ xmlEscape b := by
    intro a b
    simp only [xmlEscape, replace_append]
  induction t with
  | nil => rfl
  | cons c t ih => rw [← List.singleton_append, happend, hchar, ih]; rfl

theorem unescape_cons {c : Char} (h : c ≠ '&') (t : Text) : unescape (c :: t) = c :: unescape t := by
  rw [unescape] <;> simp [h]

theorem unescape_escapeChar (c : Char) (t : Text) : unescape (escapeChar c ++ t) = c :: unescape t := by
  unfold escapeChar
  split_ifs with hamp hlt hgt hquot hapos
  · subst hamp; rfl
  · subst hlt; rfl
  · subst hgt; rfl
  · subst hquot; rfl
  · subst hapos; rfl
  · exact unescape_cons hamp t

/-- **The escaping is undone.** -/
theorem unescape_xmlEscape (t : Text) : unescape (xmlEscape t) = t := by
  rw [xmlEscape_eq]
  induction t with
  | nil => rfl
  | cons c t ih => rw [List.flatMap_cons, unescape_escapeChar, ih]

theorem escapeChar_plain (c : Char) : ((escapeChar c).all fun d => !markup.contains d) = true := by
  unfold escapeChar
  split_ifs with hamp hlt hgt hquot hapos
  · rfl
  · rfl
  · rfl
  · rfl
  · rfl
  · simp [markup, hlt, hgt, hquot, hapos]

/-- **No markup is left.** -/
theorem xmlEscape_plain (t : Text) : ∀ c ∈ xmlEscape t, c ∉ markup := by
  rw [xmlEscape_eq]
  intro c hc
  obtain ⟨d, -, hd⟩ := List.mem_flatMap.1 hc
  simpa using List.all_eq_true.1 (escapeChar_plain d) c hd

def entities : List Text := ["&amp;", "&lt;", "&gt;", "&quot;", "&apos;"].map String.toList

theorem escapeChar_cons (c : Char) :
    ∃ x xs, escapeChar c = x :: xs ∧ '&' ∉ xs ∧ (x = '&' → escapeChar c ∈ entities) := by
  unfold escapeChar
  split_ifs with hamp hlt hgt hquot hapos
  · exact ⟨'&', "amp;".toList, rfl, by decide, fun _ => by simp [entities]⟩
  · exact ⟨'&', "lt;".toList, rfl, by decide, fun _ => by simp [entities]⟩
  · exact ⟨'&', "gt;".toList, rfl, by decide, fun _ => by simp [entities]⟩
  · exact ⟨'&', "quot;".toList, rfl, by decide, fun _ => by simp [entities]⟩
  · exact ⟨'&', "apos;".toList, rfl, by decide, fun _ => by simp [entities]⟩
  · exact ⟨c, [], rfl, by simp, fun h => absurd h hamp⟩

/-- An ampersand is the first character of an entity. -/
theorem xmlEscape_entity {t a b : Text} (h : xmlEscape t = a ++ '&' :: b) : ∃ e ∈ entities, e <+: '&' :: b := by
  rw [xmlEscape_eq] at h
  induction t generalizing a with
  | nil => simp at h
  | cons c t ih =>
    obtain ⟨x, xs, hx, hamp, hentity⟩ := escapeChar_cons c
    rw [List.flatMap_cons, hx] at h
    cases a with
    | nil =>
      obtain ⟨rfl, rfl⟩ := List.cons_eq_cons.1 h
      exact ⟨escapeChar c, hentity rfl, hx ▸ List.prefix_append _ _⟩
    | cons y a =>
      rcases List.append_eq_append_iff.1 (List.cons_eq_cons.1 h).2 with ⟨d, -, hd⟩ | ⟨d, hd, hb⟩
      · exact ih hd
      · cases d with
        | nil => exact ih (a := []) hb.symm
        | cons z d =>
          obtain ⟨rfl, -⟩ := List.cons_eq_cons.1 hb
          exact absurd (hd ▸ List.mem_append_right a List.mem_cons_self) hamp

/-! ## The texts of the user -/

def Piece.map (f : Text → Text) : Piece → Piece
  | .plain t => .plain t
  | .user t => .user (f t)

section
variable (f : Text → Text)

def EniStartupCommand.mapTexts (cmd : EniStartupCommand) : EniStartupCommand :=
  { cmd with transition := f cmd.transition, dataHex := f cmd.dataHex, comment := f cmd.comment }

def EniPdoEntry.mapTexts (e : EniPdoEntry) : EniPdoEntry := { e with name := f e.name }

def EniPdo.mapTexts (pdo : EniPdo) : EniPdo :=
  { pdo with name := f pdo.name, entries := pdo.entries.map (EniPdoEntry.mapTexts f) }

def EniSlaveConfig.mapTexts (slave : EniSlaveConfig) : EniSlaveConfig :=
  { slave with
    name := f slave.name
    pdos := slave.pdos.map (EniPdo.mapTexts f)
    startupCmds := slave.startupCmds.map (EniStartupCommand.mapTexts f) }

/-- Other texts in the place of those of the user. -/
def EniGenerator.mapTexts (g : EniGenerator) : EniGenerator :=
  { g with masterName := f g.masterName, slaves := g.slaves.map (EniSlaveConfig.mapTexts f) }

variable {f}

theorem flatMap_mapTexts {α : Type} {build : α → List Piece} {m : α → α}
    (h : ∀ a, build (m a) = (build a).map (Piece.map f)) (as : List α) :
    (as.map m).flatMap build = (as.flatMap build).map (Piece.map f) := by
  rw [List.flatMap_map, List.map_flatMap]
  exact congrArg (List.flatMap · as) (funext h)

theorem map_block (n : Nat) (tag : Tag) (pieces : List Piece) :
    (block n tag pieces).map (Piece.map f) = block n tag (pieces.map (Piece.map f)) := by
  rw [block, List.map_append, List.map_append]
  rfl

theorem map_element (n : Nat) (tag : Tag) (content : Piece) :
    (element n tag content).map (Piece.map f) = element n tag (content.map f) := rfl

theorem map_plain (t : Text) : Piece.map f (.plain t) = .plain t := rfl

theorem map_number (n : Int) : Piece.map f (number n) = number n := rfl

theorem map_hex (n : UInt16) : Piece.map f (hex n) = hex n := rfl

theorem map_user (t : Text) : Piece.map f (.user t) = .user (f t) := rfl

theorem map_onlyIf (b : Bool) (pieces : List Piece) :
    (onlyIf b pieces).map (Piece.map f) = onlyIf b (pieces.map (Piece.map f)) := by
  cases b <;> rfl

theorem buildMailbox_map (slave : EniSlaveConfig) : (buildMailbox slave).map (Piece.map f) = buildMailbox slave := by
  simp only [buildMailbox, map_onlyIf, map_block, List.map_append, List.map_cons, List.map_nil, map_plain]

variable (hf : ∀ t, f t = [] ↔ t = [])
include hf

theorem isEmpty_text (t : Text) : (f t).isEmpty = t.isEmpty := by
  rw [Bool.eq_iff_iff, List.isEmpty_iff, List.isEmpty_iff, hf]

theorem buildEntry_mapTexts (e : EniPdoEntry) : buildEntry (e.mapTexts f) = (buildEntry e).map (Piece.map f) := by
  simp only [buildEntry, EniPdoEntry.mapTexts, isEmpty_text hf, map_onlyIf, List.map_append, map_block, map_element,
    map_number, map_hex, map_user]

theorem buildPdo_mapTexts (pdo : EniPdo) : buildPdo (pdo.mapTexts f) = (buildPdo pdo).map (Piece.map f) := by
  simp only [buildPdo, EniPdo.mapTexts, flatMap_mapTexts (buildEntry_mapTexts hf), List.map_append, map_block,
    map_element, map_user, map_hex]

theorem buildInitCmd_mapTexts (cmd : EniStartupCommand) :
    buildInitCmd (cmd.mapTexts f) = (buildInitCmd cmd).map (Piece.map f) := by
  simp only [buildInitCmd, EniStartupCommand.mapTexts, isEmpty_text hf, map_onlyIf, List.map_append, map_block,
    map_element, map_user, map_number, map_hex]

theorem buildSlaveElement_mapTexts (slave : EniSlaveConfig) :
    buildSlaveElement (slave.mapTexts f) = (buildSlaveElement slave).map (Piece.map f) := by
  have hmailbox : buildMailbox (slave.mapTexts f) = buildMailbox slave := rfl
  have hinfo : buildInfo (slave.mapTexts f) = (buildInfo slave).map (Piece.map f) := by
    simp only [buildInfo, EniSlaveConfig.mapTexts, map_onlyIf, List.map_append, map_block, map_element, map_user,
      map_number]
  have hdata : buildProcessData (slave.mapTexts f) = (buildProcessData slave).map (Piece.map f) := by
    simp only [buildProcessData, EniSlaveConfig.mapTexts, flatMap_mapTexts (buildPdo_mapTexts hf), List.isEmpty_map,
      map_onlyIf, map_block]
  have hcmds : buildInitCmds (slave.mapTexts f) = (buildInitCmds slave).map (Piece.map f) := by
    simp only [buildInitCmds, EniSlaveConfig.mapTexts, flatMap_mapTexts (buildInitCmd_mapTexts hf), List.isEmpty_map,
      map_onlyIf, map_block]
  simp only [buildSlaveElement, hmailbox, hinfo, hdata, hcmds, buildMailbox_map, List.map_append, map_block]

/-- **The texts of the user are nowhere else in a document**: with others in their place
it is the same otherwise. -/
theorem document_mapTexts (g : EniGenerator) : document (g.mapTexts f) = (document g).map (Piece.map f) := by
  simp only [document, buildMaster, EniGenerator.mapTexts, flatMap_mapTexts (buildSlaveElement_mapTexts hf),
    List.map_append, List.map_cons, List.map_nil, map_block, map_element, map_plain, map_user, map_number]

end

/-! ## Balance -/

theorem isName_text (tag : Tag) : isName tag.text = true := by
  cases tag <;> rfl

theorem attributes_plain (tag : Tag) : ∀ a ∈ tag.attributes, Plain a.1 ∧ Plain a.2 := by
  have hall : (tag.attributes.all fun a => isPlain a.1 && isPlain a.2) = true := by
    cases tag <;> rfl
  intro a ha
  have hplain := List.all_eq_true.1 hall a ha
  rw [Bool.and_eq_true] at hplain
  exact ⟨plain_of hplain.1, plain_of hplain.2⟩

theorem indent_plain (n : Nat) : Plain (indent n) :=
  ⟨fun h => absurd (List.eq_of_mem_replicate h) (by decide), fun h => absurd (List.eq_of_mem_replicate h) (by decide)⟩

theorem newline_plain : Plain ['\n'] := plain_of rfl

section
variable (n : Nat) (tag : Tag) (inside : List Text)

theorem scan_opening : scan (.text inside) (opening n tag) = .text (tag.text :: inside) := by
  rw [opening, scan_append, (indent_plain n).keeps, scan_openTag (isName_text tag) _ (attributes_plain tag)]

theorem scan_closing : scan (.text (tag.text :: inside)) (closing tag) = .text inside := by
  rw [closing, scan_append, scan_closeTag (isName_text tag), newline_plain.keeps]

theorem scan_openLine : scan (.text inside) (openLine n tag) = .text (tag.text :: inside) := by
  rw [openLine, scan_append, scan_opening, newline_plain.keeps]

theorem scan_closeLine : scan (.text (tag.text :: inside)) (closeLine n tag) = .text inside := by
  rw [closeLine, scan_append, (indent_plain n).keeps, scan_closing]

end

theorem textOf_append (a b : List Piece) : textOf (a ++ b) = textOf a ++ textOf b := List.flatMap_append

theorem textOf_plain (t : Text) : textOf [.plain t] = t := List.append_nil t

theorem textOf_element (n : Nat) (tag : Tag) (content : Piece) :
    textOf (element n tag content) = opening n tag ++ (content.text ++ closing tag) := by
  simp [textOf, element, Piece.text]

theorem textOf_block (n : Nat) (tag : Tag) (pieces : List Piece) :
    textOf (block n tag pieces) = openLine n tag ++ (textOf pieces ++ closeLine n tag) := by
  rw [block, textOf_append, textOf_append, textOf_plain, textOf_plain, List.append_assoc]

theorem textOf_flatMap {α : Type} (build : α → List Piece) (as : List α) :
    textOf (as.flatMap build) = as.flatMap fun a => textOf (build a) := List.flatMap_assoc

theorem user_plain (t : Text) : Plain (Piece.user t).text :=
  ⟨fun h => xmlEscape_plain t _ h (by decide), fun h => xmlEscape_plain t _ h (by decide)⟩

theorem number_plain (n : Int) : Plain (number n).text :=
  ⟨fun h => absurd (QJson.mem_intText h) (by decide), fun h => absurd (QJson.mem_intText h) (by decide)⟩

theorem digits_of_hex {n : Nat} {c : Char} (h : c ∈ (Nat.toDigits 16 n).leftpad 4 '0') : isDigitOf 16 c = true := by
  rw [List.leftpad, List.mem_append] at h
  rcases h with hzero | hdigit
  · rw [List.eq_of_mem_replicate hzero]
    rfl
  · exact isDigitOf_toDigits (by decide) (by decide) c hdigit

theorem hex_plain (n : UInt16) : Plain (hex n).text := by
  have hdigits : Plain ((Nat.toDigits 16 n.toNat).leftpad 4 '0') :=
    ⟨fun h => absurd (digits_of_hex h) (by decide), fun h => absurd (digits_of_hex h) (by decide)⟩
  exact (plain_of (t := ['#', 'x']) rfl).append hdigits

/-- The part of a document is balanced. -/
abbrev Kept (pieces : List Piece) : Prop := Keeps (textOf pieces)

theorem kept_append {a b : List Piece} (ha : Kept a) (hb : Kept b) : Kept (a ++ b) := by
  rw [Kept, textOf_append]
  exact ha.append hb

theorem kept_element (n : Nat) (tag : Tag) {content : Piece} (h : Plain content.text) :
    Kept (element n tag content) := by
  intro inside
  rw [textOf_element, scan_append, scan_append, scan_opening, h.keeps, scan_closing]

/-- **An element is balanced if what is in it is.** -/
theorem kept_block (n : Nat) (tag : Tag) {pieces : List Piece} (h : Kept pieces) : Kept (block n tag pieces) := by
  intro inside
  rw [textOf_block, scan_append, scan_append, scan_openLine, h, scan_closeLine]

theorem kept_emptyLine (n : Nat) (tag : Tag) : Kept [.plain (emptyLine n tag)] := by
  rw [Kept, textOf_plain]
  exact ((indent_plain n).keeps.append (keeps_emptyTag (isName_text tag))).append newline_plain.keeps

theorem kept_onlyIf (b : Bool) {pieces : List Piece} (h : Kept pieces) : Kept (onlyIf b pieces) := by
  cases b with
  | false => exact keeps_nil
  | true => exact h

theorem kept_flatMap {α : Type} {build : α → List Piece} (h : ∀ a, Kept (build a)) (as : List α) :
    Kept (as.flatMap build) := by
  rw [Kept, textOf_flatMap]
  exact Keeps.flatMap fun a _ => h a

theorem kept_user (n : Nat) (tag : Tag) (t : Text) : Kept (element n tag (.user t)) := kept_element n tag (user_plain t)

theorem kept_number (n : Nat) (tag : Tag) (k : Int) : Kept (element n tag (number k)) :=
  kept_element n tag (number_plain k)

theorem kept_hex (n : Nat) (tag : Tag) (k : UInt16) : Kept (element n tag (hex k)) := kept_element n tag (hex_plain k)

theorem kept_entry (e : EniPdoEntry) : Kept (buildEntry e) := by
  refine kept_block _ _ (kept_append (kept_append (kept_append ?_ ?_) ?_) ?_)
  · exact kept_hex _ _ _
  · exact kept_number _ _ _
  · exact kept_number _ _ _
  · exact kept_onlyIf _ (kept_user _ _ _)

theorem kept_pdo (pdo : EniPdo) : Kept (buildPdo pdo) := by
  refine kept_block _ _ (kept_append (kept_append ?_ ?_) ?_)
  · exact kept_hex _ _ _
  · exact kept_user _ _ _
  · exact kept_flatMap kept_entry _

theorem kept_mailbox (slave : EniSlaveConfig) : Kept (buildMailbox slave) := by
  refine kept_onlyIf _ (kept_block _ _ (kept_append (kept_append (kept_append ?_ ?_) ?_) ?_))
  · exact kept_onlyIf _ (kept_emptyLine _ _)
  · exact kept_onlyIf _ (kept_emptyLine _ _)
  · exact kept_onlyIf _ (kept_emptyLine _ _)
  · exact kept_onlyIf _ (kept_emptyLine _ _)

theorem kept_processData (slave : EniSlaveConfig) : Kept (buildProcessData slave) :=
  kept_onlyIf _ (kept_block _ _ (kept_flatMap kept_pdo _))

theorem kept_initCmd (cmd : EniStartupCommand) : Kept (buildInitCmd cmd) := by
  refine kept_block _ _ (kept_append (kept_append (kept_append (kept_append ?_ ?_) ?_) ?_) ?_)
  · exact kept_user _ _ _
  · exact kept_hex _ _ _
  · exact kept_number _ _ _
  · exact kept_user _ _ _
  · exact kept_onlyIf _ (kept_user _ _ _)

theorem kept_initCmds (slave : EniSlaveConfig) : Kept (buildInitCmds slave) :=
  kept_onlyIf _ (kept_block _ _ (kept_flatMap kept_initCmd _))

theorem kept_info (slave : EniSlaveConfig) : Kept (buildInfo slave) := by
  refine kept_block _ _ ?_
  refine kept_append (kept_append (kept_append (kept_append (kept_append (kept_append ?_ ?_) ?_) ?_) ?_) ?_) ?_
  · exact kept_user _ _ _
  · exact kept_number _ _ _
  · exact kept_number _ _ _
  · exact kept_onlyIf _ (kept_number _ _ _)
  · exact kept_number _ _ _
  · exact kept_number _ _ _
  · exact kept_number _ _ _

theorem kept_slave (slave : EniSlaveConfig) : Kept (buildSlaveElement slave) := by
  refine kept_block _ _ (kept_append (kept_append (kept_append ?_ ?_) ?_) ?_)
  · exact kept_info slave
  · exact kept_mailbox slave
  · exact kept_processData slave
  · exact kept_initCmds slave

theorem kept_master (g : EniGenerator) : Kept (buildMaster g) := by
  refine kept_block _ _ (kept_append (kept_block _ _ (kept_append ?_ ?_)) ?_)
  · exact kept_user _ _ _
  · exact kept_element _ _ (plain_of rfl)
  · exact kept_block _ _ (kept_block _ _ (kept_block _ _ (kept_number _ _ _)))

/-- **Every document is balanced.** -/
theorem generate_balanced (g : EniGenerator) : WellNested (generate g) := by
  have hdeclaration : Kept [.plain declaration] := by
    rw [Kept, textOf_plain]
    exact (keeps_declarationTag (plain_of rfl)).append newline_plain.keeps
  have hroot : Kept (block 0 .etherCATConfig (block 2 .config (buildMaster g ++ g.slaves.flatMap buildSlaveElement))) :=
    kept_block _ _ (kept_block _ _ (kept_append (kept_master g) (kept_flatMap kept_slave _)))
  exact kept_append hdeclaration hroot []

/-! ## Reading a document -/

/-- An element with a text, that `decode` takes. -/
def field {α : Type} (n : Nat) (tag : Tag) (decode : Text → Option α) : Reader α :=
  leaf (opening n tag) (closing tag) decode

/-- An element with lines, that `r` takes. -/
def blockOf {α : Type} (n : Nat) (tag : Tag) (r : Reader α) : Reader α := do
  literal (openLine n tag)
  let a ← r
  literal (closeLine n tag)
  pure a

def userText (t : Text) : Option Text := some (unescape t)

def decimal (t : Text) : Option Int := integer 10 t

/-- What stands behind `#x`. -/
def hexadecimal (t : Text) : Option UInt16 := some (UInt16.ofNat (ofDigits 16 (t.drop 2)))

/-- A field that may be left out. -/
def optionalField {α : Type} (n : Nat) (tag : Tag) (decode : Text → Option α) (absent : α) : Reader α :=
  optional (opening n tag) (field n tag decode) absent

def optionalBlock {α : Type} (n : Nat) (tag : Tag) (r : Reader α) (absent : α) : Reader α :=
  optional (openLine n tag) (blockOf n tag r) absent

/-- Whether `mark` is there. -/
def flag (mark : Text) : Reader Bool := optional mark (do literal mark; pure true) false

def readEntry : Reader EniPdoEntry := blockOf 10 .entry (do
  let index ← field 12 .index hexadecimal
  let subIndex ← field 12 .subIndex decimal
  let bitLength ← field 12 .bitLen decimal
  let name ← optionalField 12 .name userText []
  pure { index := index, subIndex := UInt8.ofNat subIndex.toNat, bitLength := UInt8.ofNat bitLength.toNat,
         name := name })

def readPdoTag : Reader Bool := do
  let isTxPdo ← flag (openLine 8 .txPdo)
  literal (if isTxPdo then [] else openLine 8 .rxPdo)
  pure isTxPdo

def readPdo : Reader EniPdo := do
  let isTxPdo ← readPdoTag
  let index ← field 10 .index hexadecimal
  let name ← field 10 .name userText
  let entries ← many (openLine 10 .entry) readEntry
  literal (closeLine 8 (pdoTag isTxPdo))
  pure { index := index, name := name, isTxPdo := isTxPdo, entries := entries }

def readProcessData : Reader (List EniPdo) := optionalBlock 6 .processData (many (indent 8) readPdo) []

def readInitCmd : Reader EniStartupCommand := blockOf 8 .initCmd (do
  let transition ← field 10 .transition userText
  let index ← field 10 .index hexadecimal
  let subIndex ← field 10 .subIndex decimal
  let dataHex ← field 10 .data userText
  let comment ← optionalField 10 .comment userText []
  pure { transition := transition, index := index, subIndex := UInt8.ofNat subIndex.toNat, dataHex := dataHex,
         comment := comment })

def readInitCmds : Reader (List EniStartupCommand) :=
  optionalBlock 6 .initCmds (many (openLine 8 .initCmd) readInitCmd) []

/-- The protocols CoE, EoE, FoE and SoE. -/
def readMailbox : Reader (Bool × Bool × Bool × Bool) :=
  optionalBlock 6 .mailbox (do
    let coe ← flag (emptyLine 8 .coE)
    let eoe ← flag (emptyLine 8 .eoE)
    let foe ← flag (emptyLine 8 .foE)
    let soe ← flag (emptyLine 8 .soE)
    pure (coe, eoe, foe, soe)) (false, false, false, false)

/-- A slave without mailbox, process data and commands. -/
def readInfo : Reader EniSlaveConfig := blockOf 6 .info (do
  let name ← field 8 .name userText
  let physAddr ← field 8 .physAddr decimal
  let _ ← field 8 .autoIncAddr decimal
  let alias_ ← optionalField 8 .alias_ decimal 0
  let vendorId ← field 8 .vendorId decimal
  let productCode ← field 8 .productCode decimal
  let revisionNo ← field 8 .revisionNo decimal
  pure { position := Int32.ofInt physAddr - 1001, alias_ := UInt16.ofNat alias_.toNat, name := name,
         vendorId := UInt32.ofNat vendorId.toNat, productCode := UInt32.ofNat productCode.toNat,
         revisionNo := UInt32.ofNat revisionNo.toNat, pdos := [], startupCmds := [] })

def readSlave : Reader EniSlaveConfig := blockOf 4 .slave (do
  let info ← readInfo
  let (coe, eoe, foe, soe) ← readMailbox
  let pdos ← readProcessData
  let cmds ← readInitCmds
  pure { info with supportsCoE := coe, supportsEoE := eoe, supportsFoE := foe, supportsSoE := soe, pdos := pdos,
                   startupCmds := cmds })

/-- The name of the master and the cycle time. -/
def readMaster : Reader (Text × Int) := blockOf 4 .master (do
  let name ← blockOf 6 .info (do
    let name ← field 8 .name userText
    let _ ← field 8 .source some
    pure name)
  let cycle ← blockOf 6 .cyclicFrames (blockOf 8 .frame (blockOf 10 .cmd (field 12 .cycle decimal)))
  pure (name, cycle))

def readDocument : Reader EniGenerator := do
  literal declaration
  blockOf 0 .etherCATConfig (blockOf 2 .config (do
    let (name, cycle) ← readMaster
    let slaves ← many (openLine 4 .slave) readSlave
    pure { masterName := name, cycleTimeUs := Int32.ofInt cycle, slaves := slaves }))

/-- The configuration that a document was made of. -/
def recover (t : Text) : Option EniGenerator := readAll readDocument t

/-! ### What follows a part -/

theorem unmarked_onlyIf {mark s : Text} (b : Bool) {pieces : List Piece} (h : Unmarked mark (textOf pieces ++ s))
    (hs : Unmarked mark s) : Unmarked mark (textOf (onlyIf b pieces) ++ s) := by
  cases b with
  | false => exact hs
  | true => exact h

/-- The end of an element. -/
def Closing (n : Nat) (tag : Tag) : Text → Prop := fun rest => ∃ s, rest = closeLine n tag ++ s

/-! ### Fields and elements -/

section
variable {α : Type} {F : Text → Prop} (n : Nat) (tag : Tag)

theorem reads_field {decode : Text → Option α} {content : Piece} {a : α} (hplain : Plain content.text)
    (hdecode : decode content.text = some a) : Reads Always (field n tag decode) (textOf (element n tag content)) a := by
  rw [textOf_element]
  exact reads_leaf rfl hplain.1 hdecode

theorem reads_user (t : Text) : Reads Always (field n tag userText) (textOf (element n tag (.user t))) t :=
  reads_field n tag (user_plain t) (congrArg some (unescape_xmlEscape t))

theorem reads_number (k : Int) : Reads Always (field n tag decimal) (textOf (element n tag (number k))) k :=
  reads_field n tag (number_plain k) (integer_intText k)

theorem reads_hex (k : UInt16) : Reads Always (field n tag hexadecimal) (textOf (element n tag (hex k))) k := by
  refine reads_field n tag (hex_plain k) (congrArg some ?_)
  show UInt16.ofNat (ofDigits 16 ((Nat.toDigits 16 k.toNat).leftpad 4 '0')) = k
  rw [List.leftpad, ofDigits_zeros, ofDigits_toDigits (by decide) (by decide), UInt16.ofNat_toNat]

/-- **The lines of an element**, with what they need to follow them. -/
theorem reads_block {r : Reader α} {pieces : List Piece} {a : α} (h : Reads F r (textOf pieces) a)
    (hF : ∀ rest, F (closeLine n tag ++ rest)) : Reads Always (blockOf n tag r) (textOf (block n tag pieces)) a := by
  rw [textOf_block]
  exact (reads_literal _).then (h.bind ((reads_literal _).last reads_pure) fun rest _ => hF rest)

/-- A part that is left out, or starts with its mark. -/
theorem reads_onlyIf {r : Reader α} {b : Bool} {pieces : List Piece} {mark : Text} {a absent : α}
    (h : b = true → Reads (Unmarked mark) r (textOf pieces) a ∧ mark <+: textOf pieces)
    (habsent : b = false → absent = a) :
    Reads (Unmarked mark) (optional mark r absent) (textOf (onlyIf b pieces)) a := by
  cases b with
  | false =>
    rw [habsent rfl]
    exact reads_absent
  | true => exact reads_present (h rfl).1 (h rfl).2

theorem reads_optionalField {decode : Text → Option α} {b : Bool} {content : Piece} {a absent : α}
    (h : Reads Always (field n tag decode) (textOf (element n tag content)) a) (habsent : b = false → absent = a) :
    Reads (Unmarked (opening n tag)) (optionalField n tag decode absent) (textOf (onlyIf b (element n tag content)))
      a := by
  refine reads_onlyIf (fun _ => ⟨h.mono fun _ _ => trivial, ?_⟩) habsent
  rw [textOf_element]
  exact List.prefix_append _ _

theorem block_prefix (pieces : List Piece) : openLine n tag <+: textOf (block n tag pieces) := by
  rw [textOf_block]
  exact List.prefix_append _ _

theorem reads_optionalBlock {r : Reader α} {b : Bool} {pieces : List Piece} {a absent : α}
    (h : Reads Always (blockOf n tag r) (textOf (block n tag pieces)) a) (habsent : b = false → absent = a) :
    Reads (Unmarked (openLine n tag)) (optionalBlock n tag r absent) (textOf (onlyIf b (block n tag pieces))) a :=
  reads_onlyIf (fun _ => ⟨h.mono fun _ _ => trivial, block_prefix n tag pieces⟩) habsent

/-- A list of parts, of which each starts with `mark`. -/
theorem reads_parts {mark : Text} {r : Reader α} {build : α → List Piece} (hne : mark ≠ [])
    (h : ∀ a, Reads Always r (textOf (build a)) a) (hmark : ∀ a, mark <+: textOf (build a)) (as : List α) :
    Reads (Unmarked mark) (many mark r) (textOf (as.flatMap build)) as := by
  rw [textOf_flatMap]
  exact reads_many hne h hmark as

theorem reads_flag (mark : Text) (b : Bool) : Reads (Unmarked mark) (flag mark) (textOf (onlyIf b [.plain mark])) b := by
  have hthere : Reads Always (do literal mark; pure true) mark true := (reads_literal _).last reads_pure
  refine reads_onlyIf (fun hb => ?_) fun hb => hb.symm
  rw [textOf_plain, hb]
  exact ⟨hthere.mono fun _ _ => trivial, List.prefix_rfl⟩

end

/-! ### Slaves -/

theorem nil_of_isEmpty {α : Type} {as : List α} (h : (!as.isEmpty) = false) : [] = as :=
  (List.isEmpty_iff.1 (by simpa using h)).symm

theorem reads_entry (e : EniPdoEntry) : Reads Always readEntry (textOf (buildEntry e)) e := by
  have hname := reads_optionalField 12 .name (b := !e.name.isEmpty) (reads_user _ _ e.name) nil_of_isEmpty
  refine reads_block (F := Unmarked (opening 12 .name)) _ _ ?_ fun rest => rfl
  simp only [textOf_append, List.append_assoc]
  refine (reads_hex _ _ _).then ?_
  refine (reads_number _ _ _).then ?_
  refine (reads_number _ _ _).then ?_
  refine hname.last (reads_eq ?_) fun _ h => h
  simp

theorem reads_initCmd (cmd : EniStartupCommand) : Reads Always readInitCmd (textOf (buildInitCmd cmd)) cmd := by
  have hcomment := reads_optionalField 10 .comment (b := !cmd.comment.isEmpty) (reads_user _ _ cmd.comment)
    nil_of_isEmpty
  refine reads_block (F := Unmarked (opening 10 .comment)) _ _ ?_ fun rest => rfl
  simp only [textOf_append, List.append_assoc]
  refine (reads_user _ _ _).then ?_
  refine (reads_hex _ _ _).then ?_
  refine (reads_number _ _ _).then ?_
  refine (reads_user _ _ _).then ?_
  refine hcomment.last (reads_eq ?_) fun _ h => h
  simp

theorem reads_pdoTag (isTxPdo : Bool) : Reads Always readPdoTag (openLine 8 (pdoTag isTxPdo)) isTxPdo := by
  cases isTxPdo with
  | false =>
    have hflag : Reads (Unmarked (openLine 8 .txPdo)) (flag (openLine 8 .txPdo)) [] false := reads_absent
    exact hflag.bind ((reads_literal (openLine 8 .rxPdo)).last reads_pure) fun rest _ => rfl
  | true =>
    have hflag : Reads Always (flag (openLine 8 .txPdo)) (openLine 8 .txPdo) true :=
      reads_present ((reads_literal _).last reads_pure) List.prefix_rfl
    exact hflag.last ((reads_literal []).last reads_pure)

theorem reads_pdo (pdo : EniPdo) : Reads Always readPdo (textOf (buildPdo pdo)) pdo := by
  have hentries := reads_parts (List.cons_ne_nil _ _) reads_entry (fun e => block_prefix 10 .entry _) pdo.entries
  simp only [buildPdo, textOf_block, textOf_append, List.append_assoc]
  refine (reads_pdoTag _).then ?_
  refine (reads_hex _ _ _).then ?_
  refine (reads_user _ _ _).then ?_
  refine hentries.bind ?_ fun rest _ => ?_
  · exact (reads_literal _).last reads_pure
  · cases pdo.isTxPdo <;> rfl

theorem pdo_prefix (pdo : EniPdo) : indent 8 <+: textOf (buildPdo pdo) := by
  rw [buildPdo, textOf_block, openLine, opening, List.append_assoc, List.append_assoc]
  exact List.prefix_append _ _

theorem reads_processData (slave : EniSlaveConfig) :
    Reads (Unmarked (openLine 6 .processData)) readProcessData (textOf (buildProcessData slave)) slave.pdos := by
  have hpdos := reads_parts (List.cons_ne_nil _ _) reads_pdo pdo_prefix slave.pdos
  exact reads_optionalBlock _ _ (reads_block _ _ hpdos fun rest => rfl) nil_of_isEmpty

theorem reads_initCmds (slave : EniSlaveConfig) :
    Reads (Unmarked (openLine 6 .initCmds)) readInitCmds (textOf (buildInitCmds slave)) slave.startupCmds := by
  have hcmds := reads_parts (List.cons_ne_nil _ _) reads_initCmd (fun cmd => block_prefix 8 .initCmd _)
    slave.startupCmds
  exact reads_optionalBlock _ _ (reads_block _ _ hcmds fun rest => rfl) nil_of_isEmpty

theorem reads_mailbox (slave : EniSlaveConfig) :
    Reads (Unmarked (openLine 6 .mailbox)) readMailbox (textOf (buildMailbox slave))
      (slave.supportsCoE, slave.supportsEoE, slave.supportsFoE, slave.supportsSoE) := by
  refine reads_optionalBlock _ _ (reads_block (F := Closing 6 .mailbox) _ _ ?_ fun rest => ⟨rest, rfl⟩) fun hnone => ?_
  · simp only [textOf_append, List.append_assoc]
    refine (reads_flag _ slave.supportsCoE).bind ?_ ?_
    refine (reads_flag _ slave.supportsEoE).bind ?_ ?_
    refine (reads_flag _ slave.supportsFoE).bind ?_ ?_
    refine (reads_flag _ slave.supportsSoE).last reads_pure ?_
    · rintro rest ⟨s, rfl⟩
      rfl
    · rintro rest ⟨s, rfl⟩
      exact unmarked_onlyIf _ rfl rfl
    · rintro rest ⟨s, rfl⟩
      rw [List.append_assoc]
      exact unmarked_onlyIf _ rfl (unmarked_onlyIf _ rfl rfl)
    · rintro rest ⟨s, rfl⟩
      rw [List.append_assoc, List.append_assoc]
      exact unmarked_onlyIf _ rfl (unmarked_onlyIf _ rfl (unmarked_onlyIf _ rfl rfl))
  · simp only [Bool.or_eq_false_iff] at hnone
    rw [hnone.1.1.1, hnone.1.1.2, hnone.1.2, hnone.2]

theorem reads_info (slave : EniSlaveConfig) :
    Reads Always readInfo (textOf (buildInfo slave))
      { position := slave.position, alias_ := slave.alias_, name := slave.name, vendorId := slave.vendorId,
        productCode := slave.productCode, revisionNo := slave.revisionNo, pdos := [], startupCmds := [] } := by
  have halias : Reads (Unmarked (opening 8 .alias_)) (optionalField 8 .alias_ decimal 0)
      (textOf (onlyIf (slave.alias_ != 0) (element 8 .alias_ (number slave.alias_.toNat)))) slave.alias_.toNat := by
    refine reads_optionalField _ _ (reads_number _ _ _) fun hzero => ?_
    rw [bne_eq_false_iff_eq.1 hzero]
    rfl
  have hposition : 1001 + slave.position - 1001 = slave.position := by
    rw [Int32.add_comm, Int32.add_sub_cancel]
  refine reads_block (F := Always) _ _ ?_ fun _ => trivial
  simp only [textOf_append, List.append_assoc]
  refine (reads_user _ _ _).then ?_
  refine (reads_number _ _ _).then ?_
  refine (reads_number _ _ _).then ?_
  refine halias.bind ?_ fun rest _ => by rw [textOf_element]; rfl
  refine (reads_number _ _ _).then ?_
  refine (reads_number _ _ _).then ?_
  refine (reads_number _ _ _).last (reads_eq ?_)
  simp only [Int.toNat_natCast, UInt16.ofNat_toNat, UInt32.ofNat_toNat, Int32.ofInt_toInt, hposition]

theorem reads_slave (slave : EniSlaveConfig) : Reads Always readSlave (textOf (buildSlaveElement slave)) slave := by
  refine reads_block (F := Closing 4 .slave) _ _ ?_ fun rest => ⟨rest, rfl⟩
  simp only [textOf_append, List.append_assoc]
  refine (reads_info slave).then ?_
  refine (reads_mailbox slave).bind ?_ ?_
  · refine (reads_processData slave).bind ?_ ?_
    · refine (reads_initCmds slave).last reads_pure ?_
      rintro rest ⟨s, rfl⟩
      rfl
    · rintro rest ⟨s, rfl⟩
      refine unmarked_onlyIf _ ?_ rfl
      rw [textOf_block, List.append_assoc]
      rfl
  · rintro rest ⟨s, rfl⟩
    rw [List.append_assoc]
    refine unmarked_onlyIf _ ?_ (unmarked_onlyIf _ ?_ rfl)
    · rw [textOf_block, List.append_assoc]
      rfl
    · rw [textOf_block, List.append_assoc]
      rfl

theorem reads_master (g : EniGenerator) :
    Reads Always readMaster (textOf (buildMaster g)) (g.masterName, g.cycleTimeUs.toInt) := by
  refine reads_block (F := Always) _ _ ?_ fun _ => trivial
  rw [textOf_append]
  refine (reads_block (F := Always) (a := g.masterName) _ _ ?_ fun _ => trivial).then ?_
  · rw [textOf_append]
    refine (reads_user _ _ _).then ?_
    exact (reads_field _ _ (plain_of rfl) rfl).last reads_pure
  · refine (reads_block (F := Always) (a := g.cycleTimeUs.toInt) _ _ ?_ fun _ => trivial).last reads_pure
    refine reads_block (F := Always) _ _ ?_ fun _ => trivial
    exact reads_block (F := Always) _ _ (reads_number _ _ _) fun _ => trivial

theorem reads_document (g : EniGenerator) : Reads Always readDocument (textOf (document g)) g := by
  have hslaves := reads_parts (List.cons_ne_nil _ _) reads_slave (fun slave => block_prefix 4 .slave _) g.slaves
  rw [document, textOf_append, textOf_plain]
  refine (reads_literal _).then (reads_block (F := Always) _ _ ?_ fun _ => trivial)
  refine reads_block (F := Unmarked (openLine 4 .slave)) _ _ ?_ fun rest => rfl
  rw [textOf_append]
  refine (reads_master g).then ?_
  refine hslaves.last (reads_eq ?_) fun _ h => h
  rw [Int32.ofInt_toInt]

/-- **The configuration is read back of its document.** -/
theorem recover_generate (g : EniGenerator) : recover (generate g) = some g := readAll_eq (reads_document g) trivial

/-! ## Documents -/

/-- **ENI documents are faithful**: the texts of the user are in them only as they are
escaped, the elements are balanced, and the whole configuration can be read back. -/
theorem generate_faithful :
    (∀ t, unescape (xmlEscape t) = t ∧ (∀ c ∈ xmlEscape t, c ∉ markup) ∧
      ∀ a b, xmlEscape t = a ++ '&' :: b → ∃ e ∈ entities, e <+: '&' :: b) ∧
    (∀ g, generate g = textOf (document g) ∧
      ∀ f : Text → Text, (∀ t, f t = [] ↔ t = []) → document (g.mapTexts f) = (document g).map (Piece.map f)) ∧
    (∀ g, WellNested (generate g)) ∧ (∀ g, recover (generate g) = some g) ∧ Function.Injective generate := by
  refine ⟨fun t => ⟨unescape_xmlEscape t, xmlEscape_plain t, fun _ _ => xmlEscape_entity⟩,
    fun g => ⟨rfl, fun f hf => document_mapTexts hf g⟩, generate_balanced, recover_generate, fun g g' h => ?_⟩
  have hback := recover_generate g
  rw [h, recover_generate] at hback
  exact (Option.some.inj hback).symm

end NekoEcat.L1.Eni
