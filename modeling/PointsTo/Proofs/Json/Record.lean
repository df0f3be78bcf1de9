import Mathlib.Data.List.Nodup
import PointsTo.Program.Reader
import PointsTo.Proofs.Json.Parsing

namespace PointsTo

section rounding

theorem divNearest_le (n d : Nat) : divNearest n d ≤ n / d + 1 := by
  unfold divNearest
  grind

/-- Rounding at most doubles a number. -/
theorem roundBits_le (n : Nat) : roundBits n ≤ 2 * n := by
  by_cases zero : n = 0
  · subst zero
    decide
  unfold roundBits
  set surplus := Nat.log2 n + 1 - 53 with surplus_eq
  have power : 2 ^ surplus ≤ n :=
    (Nat.pow_le_pow_right Nat.two_pos (by omega)).trans (Nat.log2_self_le zero)
  rw [Nat.shiftLeft_eq, Nat.shiftLeft_eq, Nat.one_mul]
  calc divNearest n (2 ^ surplus) * 2 ^ surplus
      ≤ (n / 2 ^ surplus + 1) * 2 ^ surplus := Nat.mul_le_mul_right _ (divNearest_le n _)
    _ = n / 2 ^ surplus * 2 ^ surplus + 2 ^ surplus := by rw [Nat.add_mul, Nat.one_mul]
    _ ≤ n + n := Nat.add_le_add (Nat.div_mul_le_self n _) power
    _ = 2 * n := (Nat.two_mul n).symm

end rounding

namespace Json

section decimals

/-- The number as it is written with decimal digits only. -/
def Numeral.decimal (n : Nat) : Numeral := ⟨false, Nat.toDigits 10 n, [], none⟩

theorem digitsValue_toDigits (n : Nat) : digitsValue (Nat.toDigits 10 n) = n :=
  Nat.ofDigitChars_toDigits (by decide) le_rfl

theorem le_foldl_digits (ds : List Char) (n : Nat) : n ≤ ds.foldl (fun n c => 10 * n + digitValue c) n := by
  induction ds generalizing n with
  | nil => exact le_rfl
  | cons c ds ih =>
    have later := ih (10 * n + digitValue c)
    rw [List.foldl_cons]
    omega

/-- Digits whose value fits a machine word are all read into it. -/
theorem takeDigits_eq {ds : List Char} {n : Nat}
    (fits : ds.foldl (fun n c => 10 * n + digitValue c) n < wordLimit) :
    takeDigits n ds = (ds.foldl (fun n c => 10 * n + digitValue c) n, []) := by
  induction ds generalizing n with
  | nil => rfl
  | cons c ds ih =>
    rw [List.foldl_cons] at fits ⊢
    rw [takeDigits, if_pos ((le_foldl_digits ds _).trans_lt fits), ih fits]

variable {n : Nat}

theorem Numeral.toWord?_decimal (word : n < wordLimit) : (Numeral.decimal n).toWord? = some n := by
  simp [Numeral.toWord?, Numeral.decimal, digitsValue_toDigits, word]

theorem Numeral.inRange_decimal (word : n < wordLimit) : (Numeral.decimal n).inRange = true := by
  have digits : takeDigits 0 (Nat.toDigits 10 n) = (n, []) := by
    have value : (Nat.toDigits 10 n).foldl (fun n c => 10 * n + digitValue c) 0 = n := digitsValue_toDigits n
    rw [takeDigits_eq (by rwa [value]), value]
  have scientific : (Numeral.decimal n).scientific = (n, 0) := by
    simp [Numeral.scientific, Numeral.decimal, digits, takeDigits]
  have bound : roundBits n * roundBits (Nat.pow 10 0) < Numeral.infinityThreshold :=
    calc roundBits n * roundBits (Nat.pow 10 0)
        ≤ 2 * wordLimit * 1 := Nat.mul_le_mul ((roundBits_le n).trans (by omega)) (by decide)
      _ < Numeral.infinityThreshold := by decide +kernel
  rw [Numeral.inRange, scientific]
  cases n with
  | zero => rfl
  | succ n => exact Bool.and_eq_true_iff.mpr ⟨rfl, decide_eq_true bound⟩

end decimals

section records

/-- A field of a record: the key, the values that write it, and whether it may be left out. -/
structure Field where
  key : String
  Writes : Value → Prop
  Optional : Prop

/-- The members write a record with these fields. -/
structure Record (fields : List Field) (members : List (String × Value)) : Prop where
  distinct : (members.map (·.1)).Nodup
  written : ∀ member ∈ members, ∃ field ∈ fields, field.key = member.1 ∧ field.Writes member.2
  complete : ∀ field ∈ fields, field.Optional ∨ field.key ∈ members.map (·.1)

/-- A field with this value. -/
def Field.required (key : String) (v : Value) : Field := ⟨key, (· = v), False⟩

/-- A field that is null if there is nothing to write, and may then be left out. -/
def Field.option (key : String) (write : α → Value) (a : Option α) : Field := ⟨key, (· = a.elim .null write), a = none⟩

/-- A mark that may be left out if it is false. -/
def Field.mark (key : String) (b : Bool) : Field := ⟨key, (· = .bool b), b = false⟩

/-- A list that may be left out if it is empty. -/
def Field.list (key : String) (Writes : α → Value → Prop) (entries : List α) : Field :=
  ⟨key, fun v => ∃ items, v = .array items ∧ List.Forall₂ Writes entries items, entries = []⟩

/-- The value is an object that writes a record with these fields. -/
def WritesRecord (fields : List Field) : Value → Prop
  | .object members => Record fields members
  | _ => False

variable {α : Type} {fields : List Field} {members : List (String × Value)}

theorem WritesRecord.exists_record {v : Value} (written : WritesRecord fields v) :
    ∃ members, v = .object members ∧ Record fields members := by
  cases v with
  | object members => exact ⟨members, rfl, written⟩
  | _ => exact written.elim

/-- A field is read as what it was written for, if this holds of each value that writes it and, where it may
be left out, of its absence. -/
theorem Record.read {read : Option Value → Option α} {a : α} (record : Record fields members)
    (keys : (fields.map (·.key)).Nodup) {field : Field} (listed : field ∈ fields)
    (present : ∀ v, field.Writes v → read (some v) = some a) (absent : field.Optional → read none = some a) :
    read (members.lookup field.key) = some a := by
  cases found : members.lookup field.key with
  | some v =>
    obtain ⟨before, behind, rfl, _⟩ := List.lookup_eq_some_iff.mp found
    obtain ⟨other, also, sameKey, writes⟩ := record.written (field.key, v) (by simp)
    obtain rfl : other = field := List.inj_on_of_nodup_map keys also listed sameKey
    exact present v writes
  | none =>
    obtain optional | mentioned := record.complete field listed
    · exact absent optional
    · obtain ⟨member, inside, same⟩ := List.mem_map.mp mentioned
      have other := List.lookup_eq_none_iff.mp found member inside
      simp [same] at other

theorem Record.read_required {key : String} {v : Value} {read : Value → Option α} {a : α}
    (record : Record fields members) (keys : (fields.map (·.key)).Nodup)
    (listed : Field.required key v ∈ fields) (reads : read v = some a) :
    need read (members.lookup key) = some a := by
  refine record.read keys listed ?_ False.elim
  rintro _ rfl
  exact reads

theorem Record.read_option {key : String} {write : α → Value} {read : Value → Option α} {o : Option α}
    (record : Record fields members) (keys : (fields.map (·.key)).Nodup)
    (listed : Field.option key write o ∈ fields)
    (reads : ∀ a ∈ o, optionField read (some (write a)) = some (some a)) :
    optionField read (members.lookup key) = some o := by
  refine record.read keys listed ?_ fun nothing => by rw [nothing]; rfl
  rintro _ rfl
  cases o with
  | none => rfl
  | some a => exact reads a rfl

theorem mapM_written {Writes : α → Value → Prop} {item : Value → Option α} {entries : List α}
    {items : List Value} (written : List.Forall₂ Writes entries items)
    (reads : ∀ a ∈ entries, ∀ v, Writes a v → item v = some a) : items.mapM item = some entries := by
  induction written with
  | nil => rfl
  | cons first _ ih =>
    have head := reads _ List.mem_cons_self _ first
    have tail := ih fun a inside => reads a (List.mem_cons_of_mem _ inside)
    simp [head, tail]

theorem Record.read_list {key : String} {Writes : α → Value → Prop} {item : Value → Option α}
    {entries : List α} (record : Record fields members) (keys : (fields.map (·.key)).Nodup)
    (listed : Field.list key Writes entries ∈ fields)
    (reads : ∀ a ∈ entries, ∀ v, Writes a v → item v = some a) :
    listField item (members.lookup key) = some entries := by
  refine record.read keys listed ?_ fun nothing => by rw [nothing]; rfl
  rintro _ ⟨items, rfl, written⟩
  exact mapM_written written reads

theorem Record.fields?_eq (record : Record fields members) (required : Nat) :
    fields? (fields.map (·.key)) required (.object members) =
      some ((fields.map (·.key)).map fun name => members.lookup name) := by
  have distinct : distinctKeys members = true := decide_eq_true record.distinct
  have known : (members.all fun member => (fields.map (·.key)).contains member.1) = true := by
    refine List.all_eq_true.mpr fun member inside => ?_
    obtain ⟨field, listed, key, _⟩ := record.written member inside
    simpa using ⟨field, listed, key⟩
  rw [fields?]
  exact if_pos (Bool.and_eq_true_iff.mpr ⟨distinct, known⟩)

/-- Without repetitions, the only value of a key is what a look-up finds. -/
theorem single?_eq_lookup (distinct : (members.map (·.1)).Nodup) (key : String) :
    single? members key = members.lookup key := by
  induction members with
  | nil => rfl
  | cons member members ih =>
    obtain ⟨new, rest⟩ := List.nodup_cons.mp distinct
    obtain ⟨name, v⟩ := member
    by_cases same : name = key
    · subst same
      have others : members.filter (·.1 == name) = [] := by
        refine List.filter_eq_nil_iff.mpr fun other inside => ?_
        have apart : other.1 ≠ name := fun equal => new (List.mem_map.mpr ⟨other, inside, equal⟩)
        simpa using apart
      simp [single?, List.lookup_cons_self, others]
    · have skipped : ((name, v) :: members).lookup key = members.lookup key := by
        rw [List.lookup_cons, beq_false_of_ne (Ne.symm same)]
      rw [skipped, ← ih rest, single?, single?, List.filter_cons_of_neg (by simpa using same)]

theorem occurrences_le_one (distinct : (members.map (·.1)).Nodup) (key : String) :
    occurrences members key ≤ 1 := by
  have once := List.nodup_iff_count_le_one.mp distinct key
  rwa [List.count_eq_countP, List.countP_map] at once

end records

section depth

/-- What writes the field is not nested deeper than this. -/
def Field.Readable (depth : Nat) (field : Field) : Prop := ∀ v, field.Writes v → v.Readable depth

variable {α : Type} {depth : Nat} {key : String}

theorem Field.readable_string (s : String) : (Field.required key (.string s)).Readable depth := by
  rintro _ rfl
  cases depth <;> trivial

theorem Field.readable_mark (b : Bool) : (Field.mark key b).Readable depth := by
  rintro _ rfl
  cases depth <;> trivial

theorem Field.readable_option {write : α → Value} {o : Option α}
    (each : ∀ a ∈ o, (write a).Readable depth) : (Field.option key write o).Readable depth := by
  rintro _ rfl
  cases o with
  | none => cases depth <;> trivial
  | some a => exact each a rfl

theorem Field.readable_list {Writes : α → Value → Prop} {entries : List α}
    (each : ∀ a ∈ entries, ∀ v, Writes a v → v.Readable depth) :
    (Field.list key Writes entries).Readable (depth + 1) := by
  rintro _ ⟨items, rfl, written⟩
  change ∀ v ∈ items, v.Readable depth
  induction written with
  | nil => exact nofun
  | cons first _ ih =>
    intro v inside
    obtain rfl | later := List.mem_cons.mp inside
    · exact each _ List.mem_cons_self _ first
    · exact ih (fun a listed => each a (List.mem_cons_of_mem _ listed)) v later

theorem WritesRecord.readable {fields : List Field} {v : Value} (written : WritesRecord fields v)
    (each : ∀ field ∈ fields, field.Readable depth) : v.Readable (depth + 1) := by
  obtain ⟨members, rfl, record⟩ := written.exists_record
  intro member inside
  obtain ⟨field, listed, _, writes⟩ := record.written member inside
  exact each field listed member.2 writes

end depth

end Json

end PointsTo
