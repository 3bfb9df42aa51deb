import Mathlib.Data.List.Basic
import Mathlib.Data.List.TakeWhile
import Mathlib.Tactic.Common
import BoundedCache.Document

/-!
# What is written can be read

The text of a document reads back as that document (`Legible.parse?_render`).  The
reader works through the text with what is left of it, so the statement that carries the
induction speaks of a document with more text behind it: `ReadsBack`.  The only thing to
be known of that text is that it does not go on with a character of a number.

A number that is not an integer is kept as it is written.  `Legible` asks that it is
written as the reader would keep it, and that arrays and objects are not nested deeper
than the reader follows them.
-/

namespace BoundedCache

namespace Document

/-! ## Strings -/

theorem hexDigit?_digitChar : ∀ k < 16, hexDigit? (Nat.digitChar k) = some k := by
  decide

theorem hexUnit?_control {n : Nat} (hn : n < 0x20) (rest : List Char) :
    hexUnit? ('0' :: '0' :: Nat.digitChar (n / 16) :: Nat.digitChar (n % 16) :: rest) =
      some (n, rest) := by
  have hzero : hexDigit? '0' = some 0 := by decide
  have hhigh := hexDigit?_digitChar (n / 16) (by omega)
  have hlow := hexDigit?_digitChar (n % 16) (by omega)
  simp only [hexUnit?, hzero, hhigh, hlow, Option.bind_eq_bind, Option.bind_some]
  rw [show ((0 * 16 + 0) * 16 + n / 16) * 16 + n % 16 = n by omega]
  rfl

/-- A control character is read from its code. -/
theorem escaped?_control {c : Char} (hc : c.toNat < 0x20) (rest : List Char) :
    escaped? ('0' :: '0' :: Nat.digitChar (c.toNat / 16) :: Nat.digitChar (c.toNat % 16) :: rest) =
      some (c, rest) := by
  have hhigh : ¬(0xd800 ≤ c.toNat ∧ c.toNat < 0xdc00) := by omega
  have hlow : ¬(0xdc00 ≤ c.toNat ∧ c.toNat < 0xe000) := by omega
  simp only [escaped?, hexUnit?_control hc, Option.bind_eq_bind, Option.bind_some, if_neg hhigh,
    if_neg hlow, Char.ofNat_toNat]
  rfl

/-- A character that needs no escape is read as it is. -/
theorem readChars_cons {c : Char} (hquote : c ≠ '"') (hslash : c ≠ '\\') (hc : ¬c.toNat < 0x20)
    (fuel : Nat) (rest : List Char) :
    readChars (fuel + 1) (c :: rest) =
      (readChars fuel rest).bind fun read => some (c :: read.1, read.2) := by
  simp [readChars, hslash, hc]

/-- What is written for a character is read as that character. -/
theorem readChars_escapeChar (fuel : Nat) (c : Char) (rest : List Char) :
    readChars (fuel + 1) (escapeChar c ++ rest) =
      (readChars fuel rest).bind fun read => some (c :: read.1, read.2) := by
  unfold escapeChar
  split
  -- the characters that have no short escape
  case h_8 hquote hslash _ _ _ _ _ =>
    split
    · rename_i hcontrol
      simp [readChars, escaped?_control hcontrol]
    · rename_i hcontrol
      exact readChars_cons hquote hslash hcontrol fuel rest
  all_goals simp [readChars]

theorem length_escapeChar_pos (c : Char) : 0 < (escapeChar c).length := by
  unfold escapeChar
  split
  case h_8 => split <;> simp
  all_goals simp

theorem length_le_flatMap_escapeChar (body : List Char) :
    body.length ≤ (body.flatMap escapeChar).length := by
  induction body with
  | nil => exact Nat.le_refl 0
  | cons c rest ih =>
      have hpos := length_escapeChar_pos c
      rw [List.flatMap_cons, List.length_append, List.length_cons]
      omega

theorem readChars_flatMap (body rest : List Char) {fuel : Nat} (hfuel : body.length < fuel) :
    readChars fuel (body.flatMap escapeChar ++ '"' :: rest) = some (body, rest) := by
  induction body generalizing fuel with
  | nil =>
      obtain ⟨fuel, rfl⟩ := Nat.exists_eq_add_one_of_ne_zero (Nat.ne_of_gt hfuel)
      simp [readChars]
  | cons c body ih =>
      obtain ⟨fuel, rfl⟩ := Nat.exists_eq_add_one_of_ne_zero (Nat.ne_zero_of_lt hfuel)
      rw [List.flatMap_cons, List.append_assoc, readChars_escapeChar,
        ih (Nat.lt_of_succ_lt_succ hfuel)]
      rfl

/-- A string reads back up to its closing quote. -/
theorem readString_writeString (s : String) (rest : List Char) :
    readString (s.toList.flatMap escapeChar ++ '"' :: rest) = some (s, rest) := by
  have hfuel : s.toList.length < (s.toList.flatMap escapeChar ++ '"' :: rest).length + 1 := by
    have hle := length_le_flatMap_escapeChar s.toList
    rw [List.length_append]
    omega
  rw [readString, readChars_flatMap s.toList rest hfuel]
  simp

/-! ## Numbers -/

/-- The text does not go on with a character of a number. -/
def EndsNumber (rest : List Char) : Prop := ∀ c ∈ rest.head?, isNumeric c = false

theorem endsNumber_nil : EndsNumber [] := by
  simp [EndsNumber]

theorem endsNumber_cons {c : Char} (hc : isNumeric c = false) (rest : List Char) :
    EndsNumber (c :: rest) := by
  simpa [EndsNumber] using hc

theorem isNumeric_of_isDigit {c : Char} (hc : c.isDigit = true) : isNumeric c = true := by
  simp [isNumeric, hc]

theorem takeWhile_isNumeric {written rest : List Char}
    (hwritten : ∀ c ∈ written, isNumeric c = true) (hrest : EndsNumber rest) :
    (written ++ rest).takeWhile isNumeric = written := by
  rw [List.takeWhile_append_of_pos hwritten]
  cases rest with
  | nil => simp
  | cons c rest => simp [hrest c rfl]

theorem dropWhile_isNumeric {written rest : List Char}
    (hwritten : ∀ c ∈ written, isNumeric c = true) (hrest : EndsNumber rest) :
    (written ++ rest).dropWhile isNumeric = rest := by
  rw [List.dropWhile_append_of_pos hwritten]
  cases rest with
  | nil => rfl
  | cons c rest => simp [hrest c rfl]

theorem ne_of_isNumeric {c other : Char} (hc : isNumeric c = true)
    (hother : isNumeric other = false) : c ≠ other := by
  rintro rfl
  rw [hc] at hother
  exact Bool.noConfusion hother

theorem isBlank_of_isNumeric {c : Char} (hc : isNumeric c = true) : isBlank c = false := by
  by_contra hblank
  simp only [isBlank, Bool.not_eq_false, Bool.or_eq_true, decide_eq_true_eq] at hblank
  rcases hblank with ((rfl | rfl) | rfl) | rfl <;> exact absurd hc (by decide)

theorem skip_cons {c : Char} (hc : isBlank c = false) (cs : List Char) :
    skip (c :: cs) = c :: cs := by
  rw [skip, List.dropWhile_cons_of_neg (by simp [hc])]

/-- What begins with a character of a number is read as a number. -/
theorem readValue_of_isNumeric {c : Char} (hc : isNumeric c = true) (fuel depth : Nat)
    (cs : List Char) :
    readValue (fuel + 1) depth (c :: cs) =
      (readNumber ((c :: cs).takeWhile isNumeric)).bind fun d =>
        some (d, (c :: cs).dropWhile isNumeric) := by
  have hother : ∀ other, isNumeric other = false → c ≠ other := fun _ => ne_of_isNumeric hc
  have hskip : skip (c :: cs) = c :: cs := skip_cons (isBlank_of_isNumeric hc) cs
  have h₁ := hother 'n' (by decide)
  have h₂ := hother 't' (by decide)
  have h₃ := hother 'f' (by decide)
  have h₄ := hother '"' (by decide)
  have h₅ := hother '[' (by decide)
  have h₆ := hother '\x7b' (by decide)
  simp [readValue, hskip, h₁, h₂, h₃, h₄, h₅, h₆]

theorem ofDigits_toDigits (n : Nat) : ofDigits (Nat.toDigits 10 n) = n := by
  have hsame : ofDigits (Nat.toDigits 10 n) = Nat.ofDigitChars 10 (Nat.toDigits 10 n) 0 := by
    simp only [ofDigits, Nat.ofDigitChars, Nat.mul_comm 10]
  rw [hsame, Nat.ofDigitChars_toDigits (by decide) (by decide)]

theorem isDigit_of_mem_toDigits {n : Nat} : ∀ c ∈ Nat.toDigits 10 n, c.isDigit = true :=
  fun _ => Nat.isDigit_of_mem_toDigits (by decide) (by decide)

/-- A number that is not zero is not written with a zero in front. -/
theorem head_toDigits {n : Nat} (hn : n ≠ 0) : (Nat.toDigits 10 n).head? ≠ some '0' := by
  induction n using Nat.strongRecOn with
  | ind n ih =>
      by_cases hsmall : n < 10
      · rw [Nat.toDigits_of_lt_base hsmall]
        have hdigit : ∀ k < 10, k ≠ 0 → Nat.digitChar k ≠ '0' := by decide
        simpa using hdigit n hsmall hn
      · have hsplit : Nat.toDigits 10 n = Nat.toDigits 10 (n / 10) ++ [Nat.digitChar (n % 10)] :=
          Nat.toDigits_of_base_le (by decide) (by omega)
        rw [hsplit, List.head?_append_of_ne_nil _ Nat.toDigits_ne_nil]
        exact ih (n / 10) (by omega) (by omega)

theorem isWhole_toDigits (n : Nat) : isWhole (Nat.toDigits 10 n) = true := by
  have hdigits : isDigits (Nat.toDigits 10 n) = true := by
    simpa [isDigits, Nat.toDigits_ne_nil] using isDigit_of_mem_toDigits (n := n)
  rw [isWhole, hdigits, Bool.true_and]
  by_cases hn : n = 0
  · subst hn
    decide
  · simp [head_toDigits hn]

theorem takeWhile_toDigits (n : Nat) :
    (Nat.toDigits 10 n).takeWhile Char.isDigit = Nat.toDigits 10 n :=
  List.takeWhile_eq_self_iff.mpr isDigit_of_mem_toDigits

theorem dropWhile_toDigits (n : Nat) : (Nat.toDigits 10 n).dropWhile Char.isDigit = [] :=
  List.dropWhile_eq_nil_iff.mpr isDigit_of_mem_toDigits

theorem unsigned_toDigits (n : Nat) : unsigned (Nat.toDigits 10 n) = Nat.toDigits 10 n := by
  have hall : ∀ c ∈ Nat.toDigits 10 n, c.isDigit = true := isDigit_of_mem_toDigits
  unfold unsigned
  split
  · rename_i digits hminus
    rw [hminus] at hall
    simpa using hall '-' List.mem_cons_self
  · rfl

theorem readNumber_toDigits (n : Nat) : readNumber (Nat.toDigits 10 n) = some (.integer n) := by
  simp [readNumber, unsigned_toDigits, takeWhile_toDigits, dropWhile_toDigits, isWhole_toDigits,
    isRemainder, ofDigits_toDigits]

/-- Zero has no sign, and every other integer may have one. -/
theorem readNumber_minus_toDigits {n : Nat} (hn : n ≠ 0) :
    readNumber ('-' :: Nat.toDigits 10 n) = some (.integer (-n)) := by
  have hzero : Nat.toDigits 10 n ≠ ['0'] := by
    intro hzero
    exact head_toDigits hn (congrArg List.head? hzero)
  have hminus : '-' :: Nat.toDigits 10 n ≠ Nat.toDigits 10 n := List.cons_ne_self _ _
  simp [readNumber, unsigned, takeWhile_toDigits, dropWhile_toDigits, isWhole_toDigits,
    isRemainder, hzero, hminus, ofDigits_toDigits]

/-- An integer is written with digits and perhaps a sign, and read from them. -/
theorem readNumber_toString (n : Int) :
    (∀ c ∈ (toString n).toList, isNumeric c = true) ∧
      readNumber (toString n).toList = some (.integer n) := by
  rw [Int.toString_eq_repr, Int.repr_eq_if]
  split
  · rename_i hsign
    rw [Nat.toList_repr, readNumber_toDigits, Int.toNat_of_nonneg hsign]
    exact ⟨fun c hc => isNumeric_of_isDigit (isDigit_of_mem_toDigits c hc), rfl⟩
  · rename_i hsign
    have hminus : ("-" ++ (-n).toNat.repr).toList = '-' :: Nat.toDigits 10 (-n).toNat := by
      rw [String.toList_append, Nat.toList_repr]
      rfl
    rw [hminus, readNumber_minus_toDigits (by omega)]
    refine ⟨fun c hc => ?_, by rw [Int.toNat_of_nonneg (by omega), Int.neg_neg]⟩
    rcases List.mem_cons.mp hc with rfl | hc
    · rfl
    · exact isNumeric_of_isDigit (isDigit_of_mem_toDigits c hc)

/-! ## Documents -/

/-- Every number that is kept as it is written is one that the reader would keep, and at most
`depth` arrays and objects stand within each other. -/
inductive Legible : Nat → Document → Prop where
  | null {depth : Nat} : Legible depth .null
  | bool {depth : Nat} (value : Bool) : Legible depth (.bool value)
  | integer {depth : Nat} (value : Int) : Legible depth (.integer value)
  | decimal {depth : Nat} {written : String} (hnumeric : ∀ c ∈ written.toList, isNumeric c = true)
      (hkept : readNumber written.toList = some (.decimal written)) :
      Legible depth (.decimal written)
  | string {depth : Nat} (value : String) : Legible depth (.string value)
  | array {depth : Nat} {items : List Document} (hitems : ∀ d ∈ items, Legible depth d) :
      Legible (depth + 1) (.array items)
  | object {depth : Nat} {fields : List (String × Document)}
      (hfields : ∀ x ∈ fields, Legible depth x.2) : Legible (depth + 1) (.object fields)

/-- The document is read from its text, and leaves what stands behind it. -/
def ReadsBack (depth : Nat) (d : Document) : Prop :=
  ∀ ⦃fuel : Nat⦄ ⦃rest : List Char⦄, d.write.length < fuel → EndsNumber rest →
    readValue fuel depth (d.write ++ rest) = some (d, rest)

/-- A number is read from its text. -/
theorem readsBack_of_numeric {depth : Nat} {d : Document}
    (hnumeric : ∀ c ∈ d.write, isNumeric c = true) (hnumber : readNumber d.write = some d) :
    d.ReadsBack depth := by
  intro fuel rest hfuel hrest
  obtain ⟨fuel, rfl⟩ := Nat.exists_eq_add_one_of_ne_zero (Nat.ne_zero_of_lt hfuel)
  have htake := takeWhile_isNumeric hnumeric hrest
  have hdrop := dropWhile_isNumeric hnumeric hrest
  cases hwrite : d.write with
  | nil =>
      rw [hwrite] at hnumber
      exact absurd hnumber (by simp [readNumber, unsigned, isWhole, isDigits])
  | cons c cs =>
      rw [hwrite, List.cons_append] at htake hdrop
      rw [hwrite] at hnumber
      rw [List.cons_append, readValue_of_isNumeric (hnumeric c (by simp [hwrite])), htake, hdrop,
        hnumber]
      rfl

theorem readsBack_string (s : String) (depth : Nat) : (Document.string s).ReadsBack depth := by
  intro fuel rest hfuel _
  obtain ⟨fuel, rfl⟩ := Nat.exists_eq_add_one_of_ne_zero (Nat.ne_zero_of_lt hfuel)
  have hread := readString_writeString s rest
  have hskip (cs : List Char) : skip ('"' :: cs) = '"' :: cs := skip_cons (by decide) cs
  simp [write, writeString, readValue, hskip, hread]

/-- The text of a document begins with a character that is neither blank nor closes an array. -/
theorem Legible.write_eq_cons {depth : Nat} {d : Document} (h : Legible depth d) :
    ∃ c cs, d.write = c :: cs ∧ isBlank c = false ∧ c ≠ ']' := by
  have hnumber {written : List Char} {d : Document}
      (hnumeric : ∀ c ∈ written, isNumeric c = true) (hread : readNumber written = some d) :
      ∃ c cs, written = c :: cs ∧ isBlank c = false ∧ c ≠ ']' := by
    cases written with
    | nil => simp [readNumber, unsigned, isWhole, isDigits] at hread
    | cons c cs =>
        have hc := hnumeric c (by simp)
        exact ⟨c, cs, rfl, isBlank_of_isNumeric hc, ne_of_isNumeric hc (by decide)⟩
  cases h with
  | null => exact ⟨'n', "ull".toList, rfl, by decide, by decide⟩
  | bool value =>
      cases value with
      | true => exact ⟨'t', "rue".toList, rfl, by decide, by decide⟩
      | false => exact ⟨'f', "alse".toList, rfl, by decide, by decide⟩
  | integer value =>
      obtain ⟨hnumeric, hread⟩ := readNumber_toString value
      exact hnumber hnumeric hread
  | decimal hnumeric hkept => exact hnumber hnumeric hkept
  | string value => exact ⟨'"', _, rfl, by decide, by decide⟩
  | array _ => exact ⟨'[', _, rfl, by decide, by decide⟩
  | object _ => exact ⟨'\x7b', _, rfl, by decide, by decide⟩

theorem writeItems_cons (d : Document) {ds : List Document} (hne : ds ≠ []) :
    writeItems (d :: ds) = d.write ++ ',' :: writeItems ds := by
  rw [writeItems]
  exact hne

theorem writeFields_cons (name : String) (d : Document) {fields : List (String × Document)}
    (hne : fields ≠ []) :
    writeFields ((name, d) :: fields) =
      writeString name ++ ':' :: d.write ++ ',' :: writeFields fields := by
  rw [writeFields]
  exact hne

/-- The items of an array are read from their text, up to the closing bracket. -/
theorem readItems_writeItems {depth : Nat} {items : List Document} (hne : items ≠ [])
    (hitems : ∀ d ∈ items, d.ReadsBack depth) {fuel : Nat}
    (hfuel : (writeItems items).length < fuel) (rest : List Char) :
    readItems fuel depth (writeItems items ++ rest) = some (items, rest) := by
  induction items generalizing fuel with
  | nil => exact absurd rfl hne
  | cons d ds ih =>
      obtain ⟨fuel, rfl⟩ := Nat.exists_eq_add_one_of_ne_zero (Nat.ne_zero_of_lt hfuel)
      have hd := hitems d List.mem_cons_self
      by_cases hds : ds = []
      · subst hds
        simp only [writeItems, List.length_append, List.length_singleton] at hfuel
        have hread := @hd fuel (']' :: rest) (by omega) (endsNumber_cons (by decide) _)
        have hskip : skip (']' :: rest) = ']' :: rest := skip_cons (by decide) rest
        simp [writeItems, readItems, hread, hskip]
      · rw [writeItems_cons d hds, List.length_append, List.length_cons] at hfuel
        have hread := @hd fuel (',' :: (writeItems ds ++ rest)) (by omega)
          (endsNumber_cons (by decide) _)
        have hskip (cs : List Char) : skip (',' :: cs) = ',' :: cs := skip_cons (by decide) cs
        have hitems' : ∀ e ∈ ds, e.ReadsBack depth :=
          fun e he => hitems e (List.mem_cons_of_mem _ he)
        have htail : readItems fuel depth (writeItems ds ++ rest) = some (ds, rest) :=
          ih hds hitems' (by omega)
        simp [writeItems_cons d hds, readItems, hread, hskip, htail]

/-- The fields of an object are read from their text, up to the closing brace. -/
theorem readFields_writeFields {depth : Nat} {fields : List (String × Document)}
    (hne : fields ≠ []) (hfields : ∀ x ∈ fields, x.2.ReadsBack depth) {fuel : Nat}
    (hfuel : (writeFields fields).length < fuel) (rest : List Char) :
    readFields fuel depth (writeFields fields ++ rest) = some (fields, rest) := by
  induction fields generalizing fuel with
  | nil => exact absurd rfl hne
  | cons x fields ih =>
      obtain ⟨name, d⟩ := x
      obtain ⟨fuel, rfl⟩ := Nat.exists_eq_add_one_of_ne_zero (Nat.ne_zero_of_lt hfuel)
      have hd : d.ReadsBack depth := hfields (name, d) List.mem_cons_self
      have hquote (cs : List Char) : skip ('"' :: cs) = '"' :: cs := skip_cons (by decide) cs
      have hcolon (cs : List Char) : skip (':' :: cs) = ':' :: cs := skip_cons (by decide) cs
      by_cases hnil : fields = []
      · subst hnil
        simp only [writeFields, List.length_append, List.length_cons] at hfuel
        have hread := @hd fuel ('\x7d' :: rest) (by omega) (endsNumber_cons (by decide) _)
        have hskip : skip ('\x7d' :: rest) = '\x7d' :: rest := skip_cons (by decide) rest
        simp [writeFields, writeString, readFields, readString_writeString, hquote, hcolon, hread,
          hskip]
      · rw [writeFields_cons name d hnil] at hfuel
        simp only [List.length_append, List.length_cons] at hfuel
        have hread := @hd fuel (',' :: (writeFields fields ++ rest)) (by omega)
          (endsNumber_cons (by decide) _)
        have hskip (cs : List Char) : skip (',' :: cs) = ',' :: cs := skip_cons (by decide) cs
        have hfields' : ∀ y ∈ fields, y.2.ReadsBack depth :=
          fun y hy => hfields y (List.mem_cons_of_mem _ hy)
        have htail : readFields fuel depth (writeFields fields ++ rest) = some (fields, rest) :=
          ih hnil hfields' (by omega)
        simp [writeFields_cons name d hnil, writeString, readFields, readString_writeString, hquote,
          hcolon, hread, hskip, htail]

/-- The items of an array begin with the first one. -/
theorem writeItems_eq_cons {depth : Nat} {d : Document} (hd : Legible depth d)
    (ds : List Document) :
    ∃ c cs, writeItems (d :: ds) = c :: cs ∧ isBlank c = false ∧ c ≠ ']' := by
  obtain ⟨c, cs, hwrite, hblank, hclose⟩ := hd.write_eq_cons
  by_cases hds : ds = []
  · subst hds
    exact ⟨c, cs ++ [']'], by rw [writeItems, hwrite]; rfl, hblank, hclose⟩
  · exact ⟨c, _, by rw [writeItems_cons d hds, hwrite]; rfl, hblank, hclose⟩

theorem readsBack_array {depth : Nat} {items : List Document}
    (hitems : ∀ d ∈ items, Legible depth d) (hread : ∀ d ∈ items, d.ReadsBack depth) :
    (Document.array items).ReadsBack (depth + 1) := by
  intro fuel rest hfuel _
  obtain ⟨fuel, rfl⟩ := Nat.exists_eq_add_one_of_ne_zero (Nat.ne_zero_of_lt hfuel)
  have hopen (cs : List Char) : skip ('[' :: cs) = '[' :: cs := skip_cons (by decide) cs
  cases items with
  | nil =>
      have hclose : skip (']' :: rest) = ']' :: rest := skip_cons (by decide) rest
      simp [write, writeItems, readValue, hopen, hclose]
  | cons d ds =>
      rw [write, List.length_cons] at hfuel
      have hall := readItems_writeItems (by simp) hread (Nat.lt_of_succ_lt_succ hfuel) rest
      -- the first character of the items shows that the array is not empty
      obtain ⟨c, cs, hwrite, hblank, hclose⟩ := writeItems_eq_cons (hitems d (by simp)) ds
      rw [hwrite, List.cons_append] at hall
      have hskip : skip (c :: (cs ++ rest)) = c :: (cs ++ rest) := skip_cons hblank _
      simp [write, hwrite, readValue, hopen, hskip, hclose, hall]

theorem readsBack_object {depth : Nat} {fields : List (String × Document)}
    (hread : ∀ x ∈ fields, x.2.ReadsBack depth) :
    (Document.object fields).ReadsBack (depth + 1) := by
  intro fuel rest hfuel _
  obtain ⟨fuel, rfl⟩ := Nat.exists_eq_add_one_of_ne_zero (Nat.ne_zero_of_lt hfuel)
  have hopen (cs : List Char) : skip ('\x7b' :: cs) = '\x7b' :: cs := skip_cons (by decide) cs
  cases fields with
  | nil =>
      have hclose : skip ('\x7d' :: rest) = '\x7d' :: rest := skip_cons (by decide) rest
      simp [write, writeFields, readValue, hopen, hclose]
  | cons x fields =>
      rw [write, List.length_cons] at hfuel
      have hall := readFields_writeFields (by simp) hread (Nat.lt_of_succ_lt_succ hfuel) rest
      obtain ⟨cs, hwrite⟩ : ∃ cs, writeFields (x :: fields) = '"' :: cs := by
        by_cases hfields : fields = []
        · subst hfields
          exact ⟨_, rfl⟩
        · exact ⟨_, writeFields_cons x.1 x.2 hfields⟩
      rw [hwrite, List.cons_append] at hall
      have hskip (cs : List Char) : skip ('"' :: cs) = '"' :: cs := skip_cons (by decide) cs
      simp [write, hwrite, readValue, hopen, hskip, hall]

theorem Legible.readsBack {depth : Nat} {d : Document} (h : Legible depth d) :
    d.ReadsBack depth := by
  induction h with
  | null =>
      intro fuel rest hfuel _
      obtain ⟨fuel, rfl⟩ := Nat.exists_eq_add_one_of_ne_zero (Nat.ne_zero_of_lt hfuel)
      rfl
  | bool value =>
      intro fuel rest hfuel _
      obtain ⟨fuel, rfl⟩ := Nat.exists_eq_add_one_of_ne_zero (Nat.ne_zero_of_lt hfuel)
      cases value <;> rfl
  | integer value =>
      obtain ⟨hnumeric, hnumber⟩ := readNumber_toString value
      exact readsBack_of_numeric hnumeric hnumber
  | decimal hnumeric hkept => exact readsBack_of_numeric hnumeric hkept
  | string value => exact readsBack_string value _
  | array hitems ih => exact readsBack_array hitems ih
  | object _ ih => exact readsBack_object ih

/-- The text of a document holds that document. -/
theorem Legible.parse?_render {d : Document} (h : Legible depthLimit d) :
    parse? d.render = some d := by
  have hfuel : d.write.length < d.render.length + 1 := by
    rw [render, String.length_ofList]
    exact Nat.lt_succ_self _
  have hread := h.readsBack hfuel endsNumber_nil
  rw [List.append_nil] at hread
  rw [parse?, render, String.toList_ofList, ← render, hread]
  rfl

end Document

end BoundedCache
