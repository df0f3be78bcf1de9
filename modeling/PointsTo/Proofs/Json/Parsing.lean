import PointsTo.Json.Value
import PointsTo.Proofs.Json.Spelling

namespace PointsTo.Json

/-- Lists of tokens with commas between them. -/
def joined (spellings : List (List Token)) : List Token := List.intercalate [.comma] spellings

mutual

/-- The tokens that write a value. -/
def Value.tokens : Value → List Token
  | .null => [.null]
  | .bool b => [.bool b]
  | .number x => [.number x]
  | .string s => [.string s]
  | .array items => .openBracket :: (joined (Value.itemTokens items) ++ [.closeBracket])
  | .object members => .openBrace :: (joined (Value.memberTokens members) ++ [.closeBrace])

def Value.itemTokens : List Value → List (List Token)
  | [] => []
  | v :: vs => v.tokens :: Value.itemTokens vs

def Value.memberTokens : List (String × Value) → List (List Token)
  | [] => []
  | (key, v) :: members => (.string key :: .colon :: v.tokens) :: Value.memberTokens members

end

/-- Arrays and objects are nested at most this deep, and all numbers are in range. -/
def Value.Readable : Nat → Value → Prop
  | depth + 1, .array items => ∀ v ∈ items, v.Readable depth
  | depth + 1, .object members => ∀ member ∈ members, member.2.Readable depth
  | 0, .array _ | 0, .object _ => False
  | _, .number x => x.inRange = true
  | _, .null | _, .bool _ | _, .string _ => True

/-- The tokens of a member of an object. -/
def tokensOfMember (member : String × Value) : List Token := .string member.1 :: .colon :: member.2.tokens

theorem Value.itemTokens_eq (items : List Value) : Value.itemTokens items = items.map Value.tokens := by
  induction items with
  | nil => rfl
  | cons v vs ih => rw [Value.itemTokens, ih, List.map_cons]

theorem Value.memberTokens_eq (members : List (String × Value)) :
    Value.memberTokens members = members.map tokensOfMember := by
  induction members with
  | nil => rfl
  | cons member members ih => rw [Value.memberTokens, ih, List.map_cons, tokensOfMember]

theorem joined_cons_cons (first second : List Token) (others : List (List Token)) :
    joined (first :: second :: others) = first ++ .comma :: joined (second :: others) := by
  simp [joined, List.intercalate_cons_cons]

section scanning

/-- Any spelling of these tokens can be scanned. -/
structure Scannable (ts : List Token) : Prop where
  separated : ts.IsChain Separated
  range : ∀ t ∈ ts, t.InRange

theorem Scannable.nil : Scannable [] := ⟨.nil, by simp⟩

theorem Scannable.singleton {t : Token} (range : t.InRange) : Scannable [t] := ⟨.singleton t, by simpa⟩

/-- A mark may stand between, before and behind tokens. -/
theorem Scannable.around {t : Token} {before behind : List Token} (marked : t.mark?.isSome)
    (left : Scannable before) (right : Scannable behind) : Scannable (before ++ t :: behind) where
  separated := by
    refine List.isChain_append.mpr ⟨left.separated, ?_, fun u _ v next => ?_⟩
    · exact List.isChain_cons.mpr ⟨fun _ _ => .inl marked, right.separated⟩
    · cases next
      exact .inr marked
  range := by
    intro u listed
    obtain inLeft | rfl | inRight := by simpa using listed
    · exact left.range u inLeft
    · cases u <;> trivial
    · exact right.range u inRight

theorem Scannable.enclosed {first last : Token} {inner : List Token} (opens : first.mark?.isSome)
    (closes : last.mark?.isSome) (scannable : Scannable inner) : Scannable (first :: (inner ++ [last])) :=
  Scannable.nil.around opens (scannable.around closes Scannable.nil)

theorem Scannable.joined {spellings : List (List Token)} (each : ∀ ts ∈ spellings, Scannable ts) :
    Scannable (joined spellings) := by
  induction spellings with
  | nil => exact Scannable.nil
  | cons first others ih =>
    have head := each first List.mem_cons_self
    have tail := ih fun ts listed => each ts (List.mem_cons_of_mem _ listed)
    cases others with
    | nil => simpa [Json.joined] using head
    | cons second others =>
      rw [joined_cons_cons]
      exact head.around rfl tail

theorem Value.Readable.scannable {depth : Nat} {v : Value} (readable : v.Readable depth) :
    Scannable v.tokens := by
  induction depth generalizing v with
  | zero =>
    cases v with
    | array | object => exact readable.elim
    | number => exact Scannable.singleton readable
    | null | bool | string => exact Scannable.singleton trivial
  | succ depth ih =>
    cases v with
    | array items =>
      rw [Value.tokens, Value.itemTokens_eq]
      refine (Scannable.joined ?_).enclosed rfl rfl
      rintro ts listed
      obtain ⟨v, inside, rfl⟩ := List.mem_map.mp listed
      exact ih (readable v inside)
    | object members =>
      rw [Value.tokens, Value.memberTokens_eq]
      refine (Scannable.joined ?_).enclosed rfl rfl
      rintro ts listed
      obtain ⟨member, inside, rfl⟩ := List.mem_map.mp listed
      have key : Scannable [.string member.1] := Scannable.singleton trivial
      exact key.around rfl (ih (readable member inside))
    | number => exact Scannable.singleton readable
    | null | bool | string => exact Scannable.singleton trivial

end scanning

section parsing

theorem length_le_joined {spellings : List (List Token)} (nonempty : ∀ ts ∈ spellings, ts ≠ []) :
    spellings.length ≤ (joined spellings).length := by
  induction spellings with
  | nil => simp
  | cons first others ih =>
    have positive := List.length_pos_iff.mpr (nonempty first List.mem_cons_self)
    have tail := ih fun ts listed => nonempty ts (List.mem_cons_of_mem _ listed)
    cases others with
    | nil => simpa [joined, Nat.one_le_iff_ne_zero] using positive.ne'
    | cons second others =>
      simp only [joined_cons_cons, List.length_cons, List.length_append] at tail ⊢
      omega

theorem length_le_joined_of_mem {spellings : List (List Token)} {ts : List Token} (listed : ts ∈ spellings) :
    ts.length ≤ (joined spellings).length := by
  induction spellings with
  | nil => cases listed
  | cons first others ih =>
    cases others with
    | nil =>
      obtain rfl := List.mem_singleton.mp listed
      simp [joined]
    | cons second others =>
      rw [joined_cons_cons, List.length_append, List.length_cons]
      obtain rfl | later := List.mem_cons.mp listed
      · omega
      · have := ih later
        omega

variable {α : Type} {item : Parser α} {close : Token} {spell : α → List Token} {as : List α} {room : Nat}

theorem parseItems_joined (noComma : close ≠ .comma)
    (reads : ∀ a ∈ as, ∀ rest, item (spell a ++ rest) = some (a, rest)) (nonempty : as ≠ [])
    (enough : as.length ≤ room) (rest : List Token) :
    parseItems item close room (joined (as.map spell) ++ close :: rest) = some (as, rest) := by
  induction as generalizing room with
  | nil => exact absurd rfl nonempty
  | cons a as ih =>
    obtain ⟨left, rfl⟩ : ∃ left, room = left + 1 := ⟨room - 1, by simp at enough; omega⟩
    have first := reads a List.mem_cons_self
    cases as with
    | nil =>
      have single : joined ([a].map spell) = spell a := by simp [joined]
      rw [single, parseItems, first]
      simp
    | cons b bs =>
      have fewer : (b :: bs).length ≤ left := by simpa using enough
      have others := ih (fun c listed => reads c (List.mem_cons_of_mem _ listed)) (by simp) fewer
      rw [List.map_cons] at others
      rw [List.map_cons, List.map_cons, joined_cons_cons, List.append_assoc, parseItems, first]
      simp [others]

/-- A list is read if each of its items is and none of them begins with the closing token. -/
theorem parseList_joined (noComma : close ≠ .comma)
    (starts : ∀ a ∈ as, ∃ t ts, spell a = t :: ts ∧ t ≠ close)
    (enough : (joined (as.map spell)).length ≤ room)
    (reads : ∀ a ∈ as, (spell a).length ≤ room → ∀ rest, item (spell a ++ rest) = some (a, rest))
    (rest : List Token) :
    parseList item close room (joined (as.map spell) ++ close :: rest) = some (as, rest) := by
  cases as with
  | nil => simp [joined, parseList]
  | cons a as =>
    have nonempty : ∀ ts ∈ (a :: as).map spell, ts ≠ [] := by
      intro ts listed
      obtain ⟨b, inside, rfl⟩ := List.mem_map.mp listed
      obtain ⟨t, ts, begins, _⟩ := starts b inside
      rw [begins]
      exact List.cons_ne_nil t ts
    have count := length_le_joined nonempty
    rw [List.length_map] at count
    have items := parseItems_joined noComma
      (fun b inside => reads b inside ((length_le_joined_of_mem (List.mem_map_of_mem inside)).trans enough))
      (List.cons_ne_nil a as) (count.trans enough) rest
    obtain ⟨t, ts, begins, opens⟩ := starts a List.mem_cons_self
    obtain ⟨others, written⟩ : ∃ others, joined ((a :: as).map spell) = t :: others := by
      cases as with
      | nil => exact ⟨ts, by simp [joined, begins]⟩
      | cons b bs => exact ⟨_, by rw [List.map_cons, List.map_cons, joined_cons_cons, begins]; rfl⟩
    rw [written] at items ⊢
    rw [List.cons_append, parseList, if_neg opens]
    exact items

/-- No value begins with a closing bracket, so none is taken for the end of a list. -/
theorem Value.exists_head (v : Value) : ∃ t ts, v.tokens = t :: ts ∧ t ≠ .closeBracket := by
  cases v <;> simp [Value.tokens]

/-- The tokens of a value are read as that value. -/
theorem parseValue_tokens {depth : Nat} {v : Value} (readable : v.Readable depth)
    (enough : v.tokens.length ≤ room) (rest : List Token) :
    parseValue room depth (v.tokens ++ rest) = some (v, rest) := by
  induction depth generalizing v rest with
  | zero =>
    cases v with
    | array | object => exact readable.elim
    | null | bool | string | number => rfl
  | succ depth ih =>
    cases v with
    | null | bool | string | number => rfl
    | array items =>
      rw [Value.tokens, Value.itemTokens_eq] at enough ⊢
      simp only [List.length_cons, List.length_append] at enough
      have read : parseList (parseValue room depth) .closeBracket room
          (joined (items.map Value.tokens) ++ .closeBracket :: rest) = some (items, rest) := by
        apply parseList_joined
        · decide
        · exact fun v _ => v.exists_head
        · omega
        · exact fun v inside short => ih (readable v inside) short
      rw [List.cons_append, List.append_assoc, List.singleton_append, parseValue, read]
      rfl
    | object members =>
      rw [Value.tokens, Value.memberTokens_eq] at enough ⊢
      simp only [List.length_cons, List.length_append] at enough
      have member : ∀ member ∈ members, (tokensOfMember member).length ≤ room → ∀ rest,
          parseMember (parseValue room depth) (tokensOfMember member ++ rest) = some (member, rest) := by
        intro member inside short rest
        have value : parseValue room depth (member.2.tokens ++ rest) = some (member.2, rest) := by
          refine ih (readable member inside) ?_ rest
          simp only [tokensOfMember, List.length_cons] at short
          omega
        rw [tokensOfMember, List.cons_append, List.cons_append, parseMember, value]
        rfl
      have read : parseList (parseMember (parseValue room depth)) .closeBrace room
          (joined (members.map tokensOfMember) ++ .closeBrace :: rest) = some (members, rest) := by
        apply parseList_joined
        · decide
        · exact fun member _ => ⟨_, _, rfl, nofun⟩
        · omega
        · exact member
      rw [List.cons_append, List.append_assoc, List.singleton_append, parseValue, read]
      rfl

/-- A text is read as the value whose tokens it spells. -/
theorem parse?_spelled {text : String} {v : Value} (readable : v.Readable maxDepth)
    (spelled : Spelled v.tokens text.toList) : parse? text = some v := by
  have scanned : tokens? text = some v.tokens :=
    scanTokens_spelled spelled readable.scannable.range readable.scannable.separated le_rfl
  have parsed := parseValue_tokens readable le_rfl []
  rw [List.append_nil] at parsed
  simp [parse?, scanned, parsed]

end parsing

end PointsTo.Json
