import SagaEngine.Json.Message
import SagaEngine.Json.Reader
import SagaEngine.Json.Writer
/-!
# What was written reads back

A value is read back from its compact text, whatever follows it, as long as that does not continue a
numeral. Numbers are written in decimal digits, with a minus in front if they are negative. Main
statements: `Numeral.split?_decimal`, `Json.ReadsBack.array`, `Json.ReadsBack.object` and
`Json.ReadsBack.read?_write`.
-/

namespace SagaEngine

namespace Numeral

/-- The text does not continue a numeral in front of it. -/
def Ends (rest : List Char) : Prop :=
  ∀ c, rest.head? = some c → c.isDigit = false ∧ c ≠ '.' ∧ c ≠ 'e' ∧ c ≠ 'E'

theorem ends_nil : Ends [] := nofun

theorem ends_cons {c : Char} {rest : List Char} (digit : c.isDigit = false) (point : c ≠ '.')
    (small : c ≠ 'e') (large : c ≠ 'E') : Ends (c :: rest) := by
  rintro _ ⟨⟩
  exact ⟨digit, point, small, large⟩

section

variable {digits rest : List Char} {n : Nat}

theorem splitDigits_append (all : ∀ c ∈ digits, c.isDigit = true) (ends : Ends rest) :
    splitDigits (digits ++ rest) = (digits, rest) := by
  have stops : rest.takeWhile Char.isDigit = [] ∧ rest.dropWhile Char.isDigit = rest := by
    cases rest with
    | nil => exact ⟨rfl, rfl⟩
    | cons c rest => simp [(ends c rfl).1]
  rw [splitDigits, List.takeWhile_append_of_pos all, List.dropWhile_append_of_pos all, stops.1,
    stops.2, List.append_nil]

theorem isDigit_of_mem {c : Char} (inside : c ∈ Nat.toDigits 10 n) : c.isDigit = true :=
  Nat.isDigit_of_mem_toDigits (by omega) (by omega) inside

theorem digitsValue_toDigits (n : Nat) : digitsValue (Nat.toDigits 10 n) = n := by
  rw [digitsValue, ← Nat.ofDigitChars_eq_foldl, Nat.ofDigitChars_ten_toDigits]

/-- There is no superfluous zero in front. -/
theorem head?_toDigits (positive : 0 < n) : (Nat.toDigits 10 n).head? ≠ some '0' := by
  induction n using Nat.strongRecOn with
  | ind n ih =>
    rw [Nat.toDigits_eq_if (by omega)]
    split
    · simp
      omega
    · rename_i large
      have less := ih (n / 10) (by omega) (by omega)
      rwa [List.head?_append, Option.or_of_isSome (by simp [Nat.toDigits_ne_nil])]

theorem length_toDigits_of_head? (zero : (Nat.toDigits 10 n).head? = some '0') :
    (Nat.toDigits 10 n).length = 1 := by
  obtain rfl : n = 0 := Decidable.byContradiction fun positive => head?_toDigits (by omega) zero
  rfl

/-- The sign of a numeral. -/
def signChars (negative : Bool) : List Char := if negative then ['-'] else []

theorem splitSign_toDigits (negative : Bool) (n : Nat) (rest : List Char) :
    splitSign (signChars negative ++ Nat.toDigits 10 n ++ rest) =
      (negative, Nat.toDigits 10 n ++ rest) := by
  cases negative with
  | true => rfl
  | false =>
    obtain ⟨d, ds, shape⟩ := List.exists_cons_of_ne_nil (Nat.toDigits_ne_nil (n := n) (b := 10))
    have digit : d.isDigit = true := isDigit_of_mem (shape ▸ List.mem_cons_self)
    have other : d ≠ '-' := by
      rintro rfl
      cases digit
    rw [shape]
    simp only [signChars, Bool.false_eq_true, if_false, List.nil_append, List.cons_append]
    rw [splitSign]
    intro tail same
    exact other (List.cons.inj same).1

/-- Decimal digits are split off as they are. -/
theorem split?_decimal (negative : Bool) (n : Nat) (ends : Ends rest) :
    split? (signChars negative ++ Nat.toDigits 10 n ++ rest) =
      some (⟨negative, n, 0⟩, signChars negative ++ Nat.toDigits 10 n, rest) := by
  have digits := splitDigits_append (fun c => isDigit_of_mem (n := n)) ends
  obtain ⟨d, ds, shape⟩ := List.exists_cons_of_ne_nil (Nat.toDigits_ne_nil (n := n) (b := 10))
  have single : ¬((Nat.toDigits 10 n).length > 1 ∧ (Nat.toDigits 10 n).head? = some '0') := by
    rintro ⟨long, zero⟩
    have := length_toDigits_of_head? zero
    omega
  have value := digitsValue_toDigits n
  rw [split?, splitSign_toDigits]
  dsimp only
  rw [digits]
  rw [shape] at single value ⊢
  dsimp only
  rw [if_neg single]
  have whole : (signChars negative ++ (d :: ds) ++ rest).take
      ((signChars negative ++ (d :: ds) ++ rest).length - rest.length) =
        signChars negative ++ (d :: ds) := by
    rw [List.length_append, Nat.add_sub_cancel]
    exact List.take_left
  have point : ∀ tail, rest ≠ '.' :: tail := by
    rintro tail rfl
    exact (ends _ rfl).2.1 rfl
  have small : ∀ tail, rest ≠ 'e' :: tail := by
    rintro tail rfl
    exact (ends _ rfl).2.2.1 rfl
  have large : ∀ tail, rest ≠ 'E' :: tail := by
    rintro tail rfl
    exact (ends _ rfl).2.2.2 rfl
  split
  · rename_i none
    split at none
    · exact absurd rfl (point _)
    · cases none
  · rename_i fraction afterFraction found
    split at found
    · exact absurd rfl (point _)
    · cases found
      split
      · rename_i none
        split at none
        · exact absurd rfl (small _)
        · exact absurd rfl (large _)
        · cases none
      · rename_i exponent tail found
        split at found
        · exact absurd rfl (small _)
        · exact absurd rfl (large _)
        · cases found
          rw [List.append_nil, value, whole]
          rfl

end

theorem toList_toString (n : Int) :
    (toString n).toList = signChars (n < 0) ++ Nat.toDigits 10 n.natAbs := by
  rw [Int.toString_eq_repr, Int.repr_eq_if]
  by_cases negative : n < 0
  · have abs : (-n).toNat = n.natAbs := by omega
    rw [if_neg (by omega), abs, Nat.repr_eq_ofList_toDigits, String.toList_append,
      String.toList_ofList]
    simp [signChars, negative]
  · have abs : n.toNat = n.natAbs := by omega
    rw [if_pos (by omega), abs, Nat.repr_eq_ofList_toDigits, String.toList_ofList]
    simp [signChars, negative]

theorem ofText?_toString (n : Int) :
    ofText? (toString n) = some ⟨n < 0, n.natAbs, 0⟩ := by
  have split := split?_decimal (n < 0) n.natAbs ends_nil
  rw [List.append_nil] at split
  rw [ofText?, toList_toString, split]

theorem whole?_integer (n : Int) : (⟨n < 0, n.natAbs, 0⟩ : Numeral).whole? = some n := by
  have scaled : ((n.natAbs * Nat.pow 10 (0 : Int).toNat : Nat) : Int) = n.natAbs :=
    congrArg Nat.cast (Nat.mul_one n.natAbs)
  unfold whole?
  dsimp only
  split
  · rename_i zero
    exact congrArg some (Int.natAbs_eq_zero.1 zero).symm
  · rw [if_pos (Int.le_refl 0), if_pos (by decide), scaled]
    by_cases negative : n < 0
    · rw [if_pos (decide_eq_true negative)]
      exact congrArg some (by omega)
    · rw [if_neg (by simpa using negative)]
      exact congrArg some (by omega)

theorem whole?_ofText?_toString (n : Int) : (ofText? (toString n)).bind whole? = some n := by
  rw [ofText?_toString, Option.bind_some, whole?_integer]

/-- An integer is read back from its text, so no two have the same. -/
theorem toString_inj {m n : Int} : toString m = toString n ↔ m = n := by
  constructor
  · intro same
    have read := congrArg (fun text => (ofText? text).bind whole?) same
    rw [whole?_ofText?_toString, whole?_ofText?_toString] at read
    exact Option.some.inj read
  · intro same
    rw [same]

end Numeral

namespace Json

/-! ## Strings -/

theorem hexValue?_hexDigit : ∀ n < 16, Numeral.hexValue? (hexDigit n) = some n := by
  decide

theorem unit?_hexDigits (n : Nat) (small : n < 256) :
    unit? '0' '0' (hexDigit (n / 16)) (hexDigit (n % 16)) = some n := by
  have zero : Numeral.hexValue? '0' = some 0 := by decide
  have high := hexValue?_hexDigit (n / 16) (by omega)
  have low := hexValue?_hexDigit (n % 16) (by omega)
  have value : n / 16 * 16 + n % 16 = n := by omega
  simp [unit?, zero, high, low, value]

theorem readChars_escape (c : Char) (rest : List Char) :
    readChars (escape c ++ rest) = (readChars rest).map fun r => (c :: r.1, r.2) := by
  unfold escape
  split
  · subst_vars
    simp [readChars, unescape?]
  split
  · subst_vars
    simp [readChars, unescape?]
  split
  · rename_i control
    have unit := unit?_hexDigits c.toNat (by omega)
    have below : ¬(0xd800 ≤ c.toNat ∧ c.toNat < 0xdc00) := by omega
    have alsoBelow : ¬(0xdc00 ≤ c.toNat ∧ c.toNat < 0xe000) := by omega
    simp only [List.cons_append, List.nil_append]
    rw [readChars]
    simp only [unit, below, alsoBelow, if_false, Char.ofNat_toNat]
  · rename_i notQuote notBackslash notControl
    have plain : ¬c.toNat < 0x20 := by omega
    simp only [List.cons_append, List.nil_append]
    rw [readChars.eq_5 c rest notQuote (fun _ _ _ _ _ same _ => notBackslash same)
      (fun _ _ same _ => notBackslash same), if_neg plain]

/-- What a string was written as reads back as its characters. -/
theorem readChars_escaped (cs rest : List Char) :
    readChars (cs.flatMap escape ++ '"' :: rest) = some (cs, rest) := by
  induction cs with
  | nil => simp [readChars]
  | cons c cs ih =>
    rw [List.flatMap_cons, List.append_assoc, readChars_escape, ih]
    rfl

theorem readChars_quoted (s : String) (rest : List Char) :
    readChars (s.toList.flatMap escape ++ '"' :: rest) = some (s.toList, rest) :=
  readChars_escaped s.toList rest

/-! ## Numbers -/

theorem whole?_quoted {low high n : Int} (above : low ≤ n) (below : n ≤ high) :
    whole? low high (.string (toString n)) = some n := by
  show ((Numeral.ofText? (toString n)).bind fun numeral => numeral.whole?.bind _) = some n
  rw [← Option.bind_assoc, Numeral.whole?_ofText?_toString, Option.bind_some]
  exact if_pos ⟨above, below⟩

theorem whole?_number {low high n : Int} (above : low ≤ n) (below : n ≤ high) :
    whole? low high (.number (toString n)) = some n := whole?_quoted above below

/-! ## Values -/

theorem skipBlanks_cons {c : Char} {rest : List Char} (solid : isBlank c = false) :
    skipBlanks (c :: rest) = c :: rest := by
  simp [skipBlanks, solid]

theorem readValue_string (text : String) (depth : Nat) (rest : List Char) :
    readValue (depth + 1) (quote text ++ rest) = some (.string text, rest) := by
  simp [quote, readValue, readChars_quoted]

theorem readMembers_last (name : String) {value : Json} {depth : Nat} {c : Char}
    {text rest : List Char} (solid : isBlank c = false)
    (valueRead : readValue depth (c :: (text ++ '\x7d' :: rest)) = some (value, '\x7d' :: rest)) :
    readMembers (depth + 1) (quote name ++ ':' :: c :: (text ++ '\x7d' :: rest)) =
      some ([(name, value)], rest) := by
  have brace : isBlank '\x7d' = false := rfl
  have colon : isBlank ':' = false := rfl
  rw [readMembers.eq_def]
  simp [quote, readChars_quoted, skipBlanks_cons, colon, solid, valueRead, brace]

theorem readMembers_next (name : String) {value : Json} {depth : Nat} {c : Char}
    {text rest : List Char} (solid : isBlank c = false)
    (valueRead : readValue depth (c :: (text ++ ',' :: '"' :: rest)) =
      some (value, ',' :: '"' :: rest)) :
    readMembers (depth + 1) (quote name ++ ':' :: c :: (text ++ ',' :: '"' :: rest)) =
      (readMembers depth ('"' :: rest)).map fun r => ((name, value) :: r.1, r.2) := by
  have comma : isBlank ',' = false := rfl
  have colon : isBlank ':' = false := rfl
  have mark : isBlank '"' = false := rfl
  rw [readMembers.eq_def]
  simp [quote, readChars_quoted, skipBlanks_cons, colon, solid, valueRead, comma, mark]

/-- The value is read back from its text, within a bound that is not less than the length of the
text. -/
structure ReadsBack (j : Json) : Prop where
  starts : ∃ c text, j.chars = c :: text ∧ isBlank c = false ∧ c ≠ ']'
  reads : ∀ {depth rest}, j.chars.length ≤ depth → Numeral.Ends rest →
    readValue depth (j.chars ++ rest) = some (j, rest)

namespace ReadsBack

theorem string (text : String) : ReadsBack (.string text) where
  starts := ⟨'"', _, rfl, rfl, by decide⟩
  reads {depth rest} enough _ := by
    obtain ⟨bound, rfl⟩ : ∃ bound, depth = bound + 1 := by
      refine ⟨depth - 1, ?_⟩
      simp only [chars, quote, List.length_append, List.length_cons] at enough
      omega
    exact readValue_string text bound rest

theorem ofNat (n : Nat) : ReadsBack (.ofNat n) := by
  have text : chars (.ofNat n) = Nat.toDigits 10 n := by
    show (toString n).toList = _
    rw [Nat.toString_eq_ofList_toDigits, String.toList_ofList]
  obtain ⟨d, ds, shape⟩ := List.exists_cons_of_ne_nil (Nat.toDigits_ne_nil (n := n) (b := 10))
  have digit : d.isDigit = true := Numeral.isDigit_of_mem (shape ▸ List.mem_cons_self)
  have other {c : Char} (no : c.isDigit = false) : d ≠ c := by
    rintro rfl
    rw [no] at digit
    cases digit
  refine ⟨⟨d, ds, text.trans shape, ?_, other rfl⟩, fun {depth rest} enough ends => ?_⟩
  · simp [isBlank, other (c := ' ') rfl, other (c := '\t') rfl, other (c := '\n') rfl,
      other (c := '\r') rfl]
  · have split : Numeral.split? (d :: (ds ++ rest)) = some (⟨false, n, 0⟩, d :: ds, rest) := by
      have decimal := Numeral.split?_decimal false n ends
      rwa [shape] at decimal
    rw [text, shape] at enough ⊢
    obtain ⟨bound, rfl⟩ : ∃ bound, depth = bound + 1 := ⟨depth - 1, by simp at enough; omega⟩
    rw [List.cons_append, readValue, split]
    · show some (Json.number (String.ofList (d :: ds)), rest) = _
      rw [← shape, ← Nat.toString_eq_ofList_toDigits]
      rfl
    all_goals exact fun _ same => other rfl (List.cons.inj same).1

theorem skipBlanks_chars {j : Json} (back : ReadsBack j) (rest : List Char) :
    skipBlanks (j.chars ++ rest) = j.chars ++ rest := by
  obtain ⟨c, text, shape, solid, -⟩ := back.starts
  rw [shape, List.cons_append, skipBlanks_cons solid]

/-! ## Arrays -/

section

variable {item : Json} {items : List Json} {depth : Nat} {rest : List Char}

theorem readItems_last (back : ReadsBack item) (enough : item.chars.length ≤ depth) :
    readItems (depth + 1) (item.chars ++ ']' :: rest) = some ([item], rest) := by
  have ends : Numeral.Ends (']' :: rest) :=
    Numeral.ends_cons rfl (by decide) (by decide) (by decide)
  have bracket : isBlank ']' = false := rfl
  rw [readItems, back.reads enough ends]
  simp only [skipBlanks_cons bracket]

theorem readItems_next (back : ReadsBack item) (enough : item.chars.length ≤ depth) :
    readItems (depth + 1) (item.chars ++ ',' :: rest) =
      (readItems depth (skipBlanks rest)).map fun r => (item :: r.1, r.2) := by
  have ends : Numeral.Ends (',' :: rest) :=
    Numeral.ends_cons rfl (by decide) (by decide) (by decide)
  have comma : isBlank ',' = false := rfl
  rw [readItems, back.reads enough ends]
  simp only [skipBlanks_cons comma]

theorem itemChars_cons (item : Json) (items : List Json) :
    ∃ tail, itemChars (item :: items) = item.chars ++ tail := by
  cases items with
  | nil => exact ⟨[']'], rfl⟩
  | cons next items => exact ⟨_, rfl⟩

/-- Items are read one by one; each needs one level of the bound, which its separator pays for. -/
theorem readItems_itemChars (back : ∀ j ∈ item :: items, ReadsBack j)
    (enough : (itemChars (item :: items)).length ≤ depth) :
    readItems depth (itemChars (item :: items) ++ rest) = some (item :: items, rest) := by
  obtain ⟨first, others⟩ := List.forall_mem_cons.1 back
  induction items generalizing item depth with
  | nil =>
    rw [itemChars, List.length_append, List.length_singleton] at enough
    obtain ⟨bound, rfl⟩ : ∃ bound, depth = bound + 1 := ⟨depth - 1, by omega⟩
    rw [itemChars, List.append_assoc]
    exact readItems_last first (by omega)
  | cons next items ih =>
    have separated : itemChars (item :: next :: items) =
        item.chars ++ ',' :: itemChars (next :: items) := rfl
    rw [separated, List.length_append, List.length_cons] at enough
    obtain ⟨bound, rfl⟩ : ∃ bound, depth = bound + 1 := ⟨depth - 1, by omega⟩
    obtain ⟨second, later⟩ := List.forall_mem_cons.1 others
    obtain ⟨tail, shape⟩ := itemChars_cons next items
    have solid : skipBlanks (itemChars (next :: items) ++ rest) =
        itemChars (next :: items) ++ rest := by
      rw [shape, List.append_assoc, second.skipBlanks_chars]
    rw [separated, List.append_assoc, List.cons_append, readItems_next first (by omega), solid,
      ih others (by omega) second later]
    rfl

theorem array (back : ∀ j ∈ items, ReadsBack j) : ReadsBack (.array items) where
  starts := ⟨'[', _, rfl, rfl, by decide⟩
  reads {depth rest} enough ends := by
    rw [chars, List.length_cons] at enough
    obtain ⟨bound, rfl⟩ : ∃ bound, depth = bound + 1 := ⟨depth - 1, by omega⟩
    cases items with
    | nil => rfl
    | cons item items =>
      have items' : readItems bound (itemChars (item :: items) ++ rest) = _ :=
        readItems_itemChars back (by omega)
      obtain ⟨tail, shape⟩ := itemChars_cons item items
      obtain ⟨c, text, starts, solid, other⟩ := (back item List.mem_cons_self).starts
      rw [shape, starts] at items'
      rw [chars, shape, starts]
      simp only [List.cons_append, List.append_assoc] at items' ⊢
      rw [readValue.eq_def]
      simp [skipBlanks_cons solid, items', other]

end

/-! ## Objects -/

section

variable {entry : String × Json} {members : List (String × Json)} {depth : Nat} {rest : List Char}

theorem memberChars_cons (entry : String × Json) (members : List (String × Json)) :
    ∃ tail, memberChars (entry :: members) = '"' :: tail := by
  obtain ⟨name, value⟩ := entry
  cases members with
  | nil => exact ⟨_, rfl⟩
  | cons next members => exact ⟨_, rfl⟩

theorem readMembers_memberChars (back : ∀ m ∈ entry :: members, ReadsBack m.2)
    (enough : (memberChars (entry :: members)).length ≤ depth) :
    readMembers depth (memberChars (entry :: members) ++ rest) = some (entry :: members, rest) := by
  obtain ⟨first, others⟩ := List.forall_mem_cons.1 back
  induction members generalizing entry depth with
  | nil =>
    obtain ⟨name, value⟩ := entry
    replace first : ReadsBack value := first
    have ends : Numeral.Ends ('\x7d' :: rest) :=
      Numeral.ends_cons rfl (by decide) (by decide) (by decide)
    have shape : memberChars [(name, value)] = quote name ++ ':' :: (value.chars ++ ['\x7d']) := by
      simp [memberChars]
    rw [shape, List.length_append, List.length_cons, List.length_append] at enough
    obtain ⟨bound, rfl⟩ : ∃ bound, depth = bound + 1 := ⟨depth - 1, by omega⟩
    have valueRead := first.reads (by omega : _ ≤ bound) ends
    obtain ⟨c, text, starts, solid, -⟩ := first.starts
    rw [starts] at valueRead shape
    have last := readMembers_last name solid valueRead
    simpa [shape] using last
  | cons next members ih =>
    obtain ⟨name, value⟩ := entry
    replace first : ReadsBack value := first
    have ends (tail : List Char) : Numeral.Ends (',' :: tail) :=
      Numeral.ends_cons rfl (by decide) (by decide) (by decide)
    obtain ⟨second, later⟩ := List.forall_mem_cons.1 others
    obtain ⟨tail, start⟩ := memberChars_cons next members
    have shape : memberChars ((name, value) :: next :: members) =
        quote name ++ ':' :: (value.chars ++ ',' :: memberChars (next :: members)) := by
      simp [memberChars]
    rw [shape, List.length_append, List.length_cons, List.length_append, List.length_cons] at enough
    obtain ⟨bound, rfl⟩ : ∃ bound, depth = bound + 1 := ⟨depth - 1, by omega⟩
    have tailRead := ih others (by omega : _ ≤ bound) second later
    have valueRead := first.reads (by omega : _ ≤ bound) (ends ('"' :: (tail ++ rest)))
    obtain ⟨c, text, starts, solid, -⟩ := first.starts
    rw [starts] at valueRead shape
    rw [start] at tailRead shape
    have next := readMembers_next name solid valueRead
    rw [List.cons_append] at tailRead
    rw [tailRead] at next
    simpa [shape] using next

theorem object (back : ∀ m ∈ members, ReadsBack m.2) : ReadsBack (.object members) where
  starts := ⟨'\x7b', _, rfl, rfl, by decide⟩
  reads {depth rest} enough ends := by
    rw [chars, List.length_cons] at enough
    obtain ⟨bound, rfl⟩ : ∃ bound, depth = bound + 1 := ⟨depth - 1, by omega⟩
    cases members with
    | nil => rfl
    | cons entry members =>
      have read : readMembers bound (memberChars (entry :: members) ++ rest) = _ :=
        readMembers_memberChars back (by omega)
      obtain ⟨tail, shape⟩ := memberChars_cons entry members
      rw [shape, List.cons_append] at read
      rw [chars, shape, List.cons_append, List.cons_append, readValue.eq_def]
      have mark : isBlank '"' = false := rfl
      simp [skipBlanks_cons mark, read]

end

/-- The whole text is read as the value. -/
theorem read?_write {j : Json} (back : ReadsBack j) : read? (write j) = some j := by
  have whole := back.reads (Nat.le_succ _) Numeral.ends_nil
  have start := back.skipBlanks_chars []
  rw [List.append_nil] at whole start
  rw [read?, write, String.toList_ofList]
  simp only [start, whole]
  rfl

end ReadsBack

end Json

end SagaEngine
