import PointsTo.Program.Loader
import PointsTo.Proofs.Json.Record

namespace PointsTo

open Json (Value Field Record WritesRecord Numeral)

/-- What a node is called in a description; an array is an object with a mark. -/
def NodeSort.keyword : NodeSort → String
  | .value => "value"
  | .object => "object"
  | .array => "object"
  | .function => "function"

/-- The mark that tells arrays from objects; other nodes have none. -/
def NodeSort.marks : NodeSort → List Field
  | .object => [.mark "field_insensitive" false]
  | .array => [.mark "field_insensitive" true]
  | .value | .function => []

def NodeEntry.fields (entry : NodeEntry) : List Field :=
  .required "kind" (.string entry.sort.keyword) :: .required "name" (.string entry.name) :: entry.sort.marks

def EdgeEntry.fields (entry : EdgeEntry) : List Field :=
  [.required "kind" (.string entry.family.keyword), .required "src" (.string entry.source),
    .required "dst" (.string entry.target), .option "offset" (fun k => .number (.decimal k)) entry.offset]

def IndirectCallEntry.fields (entry : IndirectCallEntry) : List Field :=
  [.required "label" (.string entry.label), .option "caller" .string entry.caller,
    .required "fn_ptr" (.string entry.pointer)]

def DirectCallEntry.fields (entry : DirectCallEntry) : List Field :=
  [.required "label" (.string entry.label), .required "caller" (.string entry.caller),
    .required "callee" (.string entry.callee)]

def Description.fields (d : Description) : List Field :=
  [.list "nodes" (fun entry => WritesRecord entry.fields) d.nodes,
    .list "edges" (fun entry => WritesRecord entry.fields) d.edges,
    .list "indirect_calls" (fun entry => WritesRecord entry.fields) d.indirectCalls,
    .list "direct_calls" (fun entry => WritesRecord entry.fields) d.directCalls]

/-- The text writes the description. -/
def Description.WrittenIn (d : Description) (text : String) : Prop :=
  ∃ v, WritesRecord d.fields v ∧ Json.Spelled v.tokens text.toList

namespace Json

/-- Only objects have a mark to read, and without it they are no arrays. -/
theorem sort?_of_written {entry : NodeEntry} {members : List (String × Value)}
    (record : Record entry.fields members) (keys : (entry.fields.map (·.key)).Nodup) :
    sort? entry.sort.keyword (members.lookup "field_insensitive") = some entry.sort := by
  obtain ⟨name, sort⟩ := entry
  cases sort with
  | value | function => rfl
  | object =>
    refine record.read keys (.tail _ (.tail _ (.head _))) ?_ fun _ => rfl
    rintro _ rfl
    rfl
  | array =>
    refine record.read keys (.tail _ (.tail _ (.head _))) ?_ nofun
    rintro _ rfl
    rfl

theorem node?_of_written {entry : NodeEntry} {v : Value} (written : WritesRecord entry.fields v) :
    node? v = some entry := by
  obtain ⟨members, rfl, record⟩ := written.exists_record
  have keys : (entry.fields.map (·.key)).Nodup := by
    cases sort : entry.sort <;> simp [NodeEntry.fields, NodeSort.marks, sort, Field.required, Field.mark]
  have keyword : need string? (members.lookup "kind") = some entry.sort.keyword :=
    record.read_required keys (.head _) rfl
  have name : need string? (members.lookup "name") = some entry.name :=
    record.read_required keys (.tail _ (.head _)) rfl
  have sort := sort?_of_written record keys
  have once := occurrences_le_one record.distinct "field_insensitive"
  simp [node?, single?_eq_lookup record.distinct, keyword, name, sort, once]

theorem edge?_of_written {entry : EdgeEntry} {v : Value} (word : ∀ k ∈ entry.offset, k < wordLimit)
    (written : WritesRecord entry.fields v) : edge? v = some entry := by
  obtain ⟨members, rfl, record⟩ := written.exists_record
  have keys : (entry.fields.map (·.key)).Nodup := by
    change ["kind", "src", "dst", "offset"].Nodup
    decide
  have family : need family? (members.lookup "kind") = some entry.family :=
    record.read_required keys (.head _) (EdgeFamily.ofKeyword?_keyword _)
  have source : need string? (members.lookup "src") = some entry.source :=
    record.read_required keys (.tail _ (.head _)) rfl
  have target : need string? (members.lookup "dst") = some entry.target :=
    record.read_required keys (.tail _ (.tail _ (.head _))) rfl
  have offset : optionField word? (members.lookup "offset") = some entry.offset := by
    refine record.read_option keys (.tail _ (.tail _ (.tail _ (.head _)))) fun k some => ?_
    simp [optionField, word?, Numeral.toWord?_decimal (word k some)]
  have fields : fields? ["kind", "src", "dst", "offset"] 3 (.object members) =
      some [members.lookup "kind", members.lookup "src", members.lookup "dst", members.lookup "offset"] :=
    record.fields?_eq 3
  simp [edge?, fields, family, source, target, offset]

theorem indirectCall?_of_written {entry : IndirectCallEntry} {v : Value}
    (written : WritesRecord entry.fields v) : indirectCall? v = some entry := by
  obtain ⟨members, rfl, record⟩ := written.exists_record
  have keys : (entry.fields.map (·.key)).Nodup := by
    change ["label", "caller", "fn_ptr"].Nodup
    decide
  have label : need string? (members.lookup "label") = some entry.label :=
    record.read_required keys (.head _) rfl
  have caller : optionField string? (members.lookup "caller") = some entry.caller :=
    record.read_option keys (.tail _ (.head _)) fun _ _ => rfl
  have pointer : need string? (members.lookup "fn_ptr") = some entry.pointer :=
    record.read_required keys (.tail _ (.tail _ (.head _))) rfl
  have fields : fields? ["label", "caller", "fn_ptr"] 3 (.object members) =
      some [members.lookup "label", members.lookup "caller", members.lookup "fn_ptr"] :=
    record.fields?_eq 3
  simp [indirectCall?, fields, label, caller, pointer]

theorem directCall?_of_written {entry : DirectCallEntry} {v : Value}
    (written : WritesRecord entry.fields v) : directCall? v = some entry := by
  obtain ⟨members, rfl, record⟩ := written.exists_record
  have keys : (entry.fields.map (·.key)).Nodup := by
    change ["label", "caller", "callee"].Nodup
    decide
  have label : need string? (members.lookup "label") = some entry.label :=
    record.read_required keys (.head _) rfl
  have caller : need string? (members.lookup "caller") = some entry.caller :=
    record.read_required keys (.tail _ (.head _)) rfl
  have callee : need string? (members.lookup "callee") = some entry.callee :=
    record.read_required keys (.tail _ (.tail _ (.head _))) rfl
  have fields : fields? ["label", "caller", "callee"] 3 (.object members) =
      some [members.lookup "label", members.lookup "caller", members.lookup "callee"] :=
    record.fields?_eq 3
  simp [directCall?, fields, label, caller, callee]

theorem description?_of_written {d : Description} {v : Value}
    (words : ∀ edge ∈ d.edges, ∀ k ∈ edge.offset, k < wordLimit) (written : WritesRecord d.fields v) :
    description? v = some d := by
  obtain ⟨members, rfl, record⟩ := written.exists_record
  have keys : (d.fields.map (·.key)).Nodup := by
    change ["nodes", "edges", "indirect_calls", "direct_calls"].Nodup
    decide
  have nodes : listField node? (members.lookup "nodes") = some d.nodes :=
    record.read_list keys (.head _) fun _ _ _ => node?_of_written
  have edges : listField edge? (members.lookup "edges") = some d.edges :=
    record.read_list keys (.tail _ (.head _)) fun edge listed _ => edge?_of_written (words edge listed)
  have indirectCalls : listField indirectCall? (members.lookup "indirect_calls") = some d.indirectCalls :=
    record.read_list keys (.tail _ (.tail _ (.head _))) fun _ _ _ => indirectCall?_of_written
  have directCalls : listField directCall? (members.lookup "direct_calls") = some d.directCalls :=
    record.read_list keys (.tail _ (.tail _ (.tail _ (.head _)))) fun _ _ _ => directCall?_of_written
  have fields : fields? ["nodes", "edges", "indirect_calls", "direct_calls"] 0 (.object members) =
      some [members.lookup "nodes", members.lookup "edges", members.lookup "indirect_calls",
        members.lookup "direct_calls"] := record.fields?_eq 0
  simp [description?, fields, nodes, edges, indirectCalls, directCalls]

end Json

variable {depth : Nat}

theorem NodeEntry.readable_fields (entry : NodeEntry) : ∀ field ∈ entry.fields, field.Readable depth := by
  obtain ⟨name, sort⟩ := entry
  cases sort <;> simp [NodeEntry.fields, NodeSort.marks, Field.readable_string, Field.readable_mark]

theorem EdgeEntry.readable_fields {entry : EdgeEntry} (word : ∀ k ∈ entry.offset, k < wordLimit) :
    ∀ field ∈ entry.fields, field.Readable depth := by
  have offset : (Field.option "offset" (fun k => .number (.decimal k)) entry.offset).Readable depth := by
    refine Field.readable_option fun k some => ?_
    cases depth <;> exact Numeral.inRange_decimal (word k some)
  simp [EdgeEntry.fields, Field.readable_string, offset]

theorem IndirectCallEntry.readable_fields (entry : IndirectCallEntry) :
    ∀ field ∈ entry.fields, field.Readable depth := by
  have caller : (Field.option "caller" .string entry.caller).Readable depth := by
    refine Field.readable_option fun s _ => ?_
    cases depth <;> trivial
  simp [IndirectCallEntry.fields, Field.readable_string, caller]

theorem DirectCallEntry.readable_fields (entry : DirectCallEntry) :
    ∀ field ∈ entry.fields, field.Readable depth := by
  simp [DirectCallEntry.fields, Field.readable_string]

/-- A description is written with a list of records inside a record, far from the greatest depth. -/
theorem Description.readable_of_written {d : Description} {v : Value}
    (words : ∀ edge ∈ d.edges, ∀ k ∈ edge.offset, k < wordLimit) (written : WritesRecord d.fields v) :
    v.Readable (depth + 3) := by
  refine written.readable fun field listed => ?_
  simp only [Description.fields, List.mem_cons, List.not_mem_nil, or_false] at listed
  obtain rfl | rfl | rfl | rfl := listed
  · exact Field.readable_list fun entry _ v written => written.readable entry.readable_fields
  · exact Field.readable_list fun entry inside v written =>
      written.readable (EdgeEntry.readable_fields (words entry inside))
  · exact Field.readable_list fun entry _ v written => written.readable entry.readable_fields
  · exact Field.readable_list fun entry _ v written => written.readable entry.readable_fields

/-- Loading a text is loading the description that it writes. -/
theorem loadText_written {d : Description} {text : String}
    (words : ∀ edge ∈ d.edges, ∀ k ∈ edge.offset, k < wordLimit) (written : d.WrittenIn text) :
    loadText text = d.load := by
  obtain ⟨v, record, spelled⟩ := written
  have readable : v.Readable Json.maxDepth := Description.readable_of_written words record
  have parsed : Json.parse? text = some v := Json.parse?_spelled readable spelled
  have read : Json.description? v = some d := Json.description?_of_written words record
  simp [loadText, Description.ofText?, parsed, read]

/-- A pointer to the last field of an object whose name is beyond the first 65536 characters. -/
def lastField : Description where
  nodes := [⟨"😀", .object⟩, ⟨"p", .value⟩]
  edges := [⟨.addr, "😀", "p", none⟩, ⟨.gep, "p", "p", some 18446744073709551615⟩]
  directCalls := []
  indirectCalls := []

def lastFieldValue : Value :=
  .object [
    ("edges", .array [
      .object [("offset", .null), ("dst", .string "p"), ("src", .string "😀"), ("kind", .string "addr")],
      .object [("offset", .number (.decimal 18446744073709551615)), ("kind", .string "gep"),
        ("src", .string "p"), ("dst", .string "p")]]),
    ("nodes", .array [
      .object [("name", .string "😀"), ("kind", .string "object")],
      .object [("kind", .string "value"), ("name", .string "p")]])]

/-- The tokens of a text that writes it, each with the blanks before it. -/
def lastFieldPieces : List (String × String) :=
  [("", "\x7b"), ("\n  ", "\"edges\""), (" ", ":"), (" ", "["),
    ("", "\x7b"), ("", "\"offset\""), ("", ":"), ("\t", "null"), ("", ","), ("", "\"dst\""), ("", ":"),
    ("", "\"p\""), ("", ","), ("", "\"src\""), ("", ":"), ("", "\"\\uD83D\\ude00\""), ("", ","),
    ("", "\"kind\""), ("", ":"), ("", "\"addr\""), ("", "\x7d"), ("", ","),
    ("\x0d\n", "\x7b"), ("", "\"offset\""), ("", ":"), ("", "18446744073709551615"), ("", ","),
    ("", "\"kind\""), ("", ":"), ("", "\"gep\""), ("", ","), ("", "\"src\""), ("", ":"), ("", "\"p\""), ("", ","),
    ("", "\"dst\""), ("", ":"), ("", "\"p\""), ("", "\x7d"), ("", "]"), ("", ","),
    ("\n  ", "\"nodes\""), ("", ":"), ("", "["), ("", "\x7b"), ("", "\"name\""), ("", ":"), ("", "\"😀\""), ("", ","),
    ("", "\"kind\""), ("", ":"), ("", "\"object\""), ("", "\x7d"), ("", ","), ("", "\x7b"), ("", "\"kind\""),
    ("", ":"), ("", "\"value\""), ("", ","), ("", "\"name\""), ("", ":"), ("", "\"p\""), ("", "\x7d"), ("", "]"),
    ("\n", "\x7d")]

def lastFieldText : String :=
  String.ofList (lastFieldPieces.flatMap fun piece => piece.1.toList ++ piece.2.toList)

theorem lastFieldText_spelled : Json.Spelled lastFieldValue.tokens lastFieldText.toList := by
  have leading : Json.UnitSpelled 0xD83D "D83D".toList :=
    .digits (i := 13) (j := 8) (k := 3) (l := 13) (by decide) (by decide) (by decide) (by decide)
  have trailing : Json.UnitSpelled 0xDE00 "de00".toList :=
    .digits (i := 13) (j := 14) (k := 0) (l := 0) (by decide) (by decide) (by decide) (by decide)
  have surrogates : Json.TextSpelled "😀".toList "\\uD83D\\ude00".toList :=
    .cons (c := '😀') (.pair (by decide) leading trailing) .nil
  have digits : Json.NumeralSpelled (.decimal 18446744073709551615) "18446744073709551615".toList :=
    .parts (x := .decimal 18446744073709551615) ⟨by decide, Json.forall_mem_of_all (by decide)⟩ (by decide)
      .none .none
  rw [lastFieldText, String.toList_ofList]
  apply Json.spelled_of_pieces
  repeat'
    first
    | exact .nil
    | refine .cons ⟨Json.forall_mem_of_all (by decide), ?_⟩ ?_
    | exact .mark rfl
    | exact .null
    | exact .number digits
    | exact .string surrogates
    | exact .string (Json.textSpelled_plain (Json.forall_mem_of_all (by decide)))

theorem lastField_writtenIn : lastField.WrittenIn lastFieldText := by
  refine ⟨lastFieldValue, ?_, lastFieldText_spelled⟩
  have object : WritesRecord (NodeEntry.fields ⟨"😀", .object⟩)
      (.object [("name", .string "😀"), ("kind", .string "object")]) := by
    constructor <;> simp [NodeEntry.fields, NodeSort.marks, NodeSort.keyword, Field.required, Field.mark]
  have pointer : WritesRecord (NodeEntry.fields ⟨"p", .value⟩)
      (.object [("kind", .string "value"), ("name", .string "p")]) := by
    constructor <;> simp [NodeEntry.fields, NodeSort.marks, NodeSort.keyword, Field.required]
  have address : WritesRecord (EdgeEntry.fields ⟨.addr, "😀", "p", none⟩)
      (.object [("offset", .null), ("dst", .string "p"), ("src", .string "😀"), ("kind", .string "addr")]) := by
    constructor <;> simp [EdgeEntry.fields, Field.required, Field.option, EdgeFamily.keyword]
  have access : WritesRecord (EdgeEntry.fields ⟨.gep, "p", "p", some 18446744073709551615⟩)
      (.object [("offset", .number (.decimal 18446744073709551615)), ("kind", .string "gep"),
        ("src", .string "p"), ("dst", .string "p")]) := by
    constructor <;> simp [EdgeEntry.fields, Field.required, Field.option, EdgeFamily.keyword]
  constructor
  · decide
  · simp [Description.fields, lastField, Field.list, object, pointer, address, access]
  · simp [Description.fields, lastField, Field.list]

theorem loadText_written_lastField : (∀ edge ∈ lastField.edges, ∀ k ∈ edge.offset, k < wordLimit) ∧
    lastField.WrittenIn lastFieldText ∧ loadText lastFieldText = lastField.load ∧ lastField.load.isOk = true :=
  ⟨by decide, lastField_writtenIn, loadText_written (by decide) lastField_writtenIn, by decide +kernel⟩

end PointsTo
