import BoundedCache.Format
import BoundedCache.Proofs.Document

/-!
# Lawful formats

The decoders are written over a format, and what is proved of them holds for every format that
keeps the rules of `Format.Lawful`.  These rules speak of one record, one choice or one word at a
time.  A text is read back only if it was written for a document without fractions whose integers
are words (`Document.Plain`): the reader may keep other numbers differently.

What a format does with documents that break its rules is left open, and so is what it does with
fields that nobody asks for.
-/

namespace BoundedCache

namespace Document

/-- A document whose numbers are words, and in which at most `depth` arrays and objects stand
within each other. -/
inductive Plain : Nat → Document → Prop where
  | null {depth : Nat} : Plain depth .null
  | bool {depth : Nat} (value : Bool) : Plain depth (.bool value)
  | word {depth : Nat} (value : UInt64) : Plain depth (ofWord value)
  | string {depth : Nat} (value : String) : Plain depth (.string value)
  | array {depth : Nat} {items : List Document} (hitems : ∀ d ∈ items, Plain depth d) :
      Plain (depth + 1) (.array items)
  | object {depth : Nat} {fields : List (String × Document)}
      (hfields : ∀ x ∈ fields, Plain depth x.2) : Plain (depth + 1) (.object fields)

theorem Plain.legible {depth : Nat} {d : Document} (h : Plain depth d) : Legible depth d := by
  induction h with
  | null => exact .null
  | bool value => exact .bool value
  | word value => exact .integer _
  | string value => exact .string value
  | array _ ih => exact .array ih
  | object _ ih => exact .object ih

/-- Fewer levels are no problem. -/
theorem Plain.mono {depth more : Nat} {d : Document} (h : Plain depth d) (hle : depth ≤ more) :
    Plain more d := by
  induction h generalizing more with
  | null => exact .null
  | bool value => exact .bool value
  | word value => exact .word value
  | string value => exact .string value
  | array _ ih =>
      obtain ⟨more, rfl⟩ := Nat.exists_eq_add_of_le' hle
      exact .array fun d hd => ih d hd (Nat.le_add_left _ _)
  | object _ ih =>
      obtain ⟨more, rfl⟩ := Nat.exists_eq_add_of_le' hle
      exact .object fun x hx => ih x hx (Nat.le_add_left _ _)

theorem plain_ofOptionalWord {depth : Nat} (n? : Option UInt64) :
    Plain depth (ofOptionalWord n?) := by
  cases n? with
  | none => exact .null
  | some n => exact .word n

theorem toWord?_ofWord (n : UInt64) : (ofWord n).toWord? = some n := by
  have hbounds : (0 : Int) ≤ n.toNat ∧ (n.toNat : Int) < UInt64.size :=
    ⟨Int.natCast_nonneg _, Int.ofNat_lt.mpr n.toNat_lt⟩
  rw [ofWord, natural, toWord?, if_pos hbounds, Int.toNat_natCast]
  exact congrArg some UInt64.ofNat_toNat

end Document

namespace Format

/-- The rules that a decoder may rely on. -/
structure Lawful (F : Format) : Prop where
  read_write {d : Document} (h : d.Plain Document.depthLimit) : F.read (F.write d) = some d
  /-- An object gives what stands under the names of the fields, each of which is written at most
  once; fields with other names do not matter. -/
  record_object {short : Bool} {names : List String} {fields : List (String × Document)}
    (honce : ((fields.map Prod.fst).filter (· ∈ names)).Nodup) :
    F.record? short names (.object fields) = some (names.map fun name => fields.lookup name)
  /-- An array gives the fields in their order, and stops early only if there are defaults. -/
  record_array {short : Bool} {names : List String} {items : List Document}
    (hlength : items.length = names.length ∨ short = true ∧ items.length ≤ names.length) :
    F.record? short names (.array items) =
      some (items.map some ++ List.replicate (names.length - items.length) none)
  choice_object {names : List String} {name : String} (hname : name ∈ names) (d : Document) :
    F.choice? names (.object [(name, d)]) = some (name, d)
  word_ofWord (n : UInt64) : F.word? (.ofWord n) = some n
  optionalWord_null : F.optionalWord? .null = some none
  optionalWord_of_word {d : Document} {n : UInt64} (h : F.word? d = some n) :
    F.optionalWord? d = some (some n)
  text_string (s : String) : F.text? (.string s) = some s

theorem standard_lawful : standard.Lawful where
  read_write h := h.legible.parse?_render
  record_object honce := if_pos honce
  record_array hlength := if_pos hlength
  choice_object hname _ := if_pos hname
  word_ofWord n := by
    have hword : standard.word? = Document.toWord? := rfl
    rw [hword, Document.toWord?_ofWord]
  optionalWord_null := rfl
  optionalWord_of_word {d n} h := by
    cases d with
    | null => exact absurd h (by simp [standard, Document.toWord?])
    | _ => exact congrArg (Option.map some) h
  text_string _ := rfl

variable {F : Format} {d : Document} {fields : List (String × Document)} {names : List String}

theorem Lawful.optionalWord_ofOptionalWord (hF : F.Lawful) (n? : Option UInt64) :
    F.optionalWord? (.ofOptionalWord n?) = some n? := by
  cases n? with
  | none => exact hF.optionalWord_null
  | some n => exact hF.optionalWord_of_word (hF.word_ofWord n)

theorem Lawful.decode?_write (hF : F.Lawful) (h : d.Plain Document.depthLimit) {α : Type}
    (ofDocument? : Document → Option α) : F.decode? ofDocument? (F.write d) = ofDocument? d := by
  rw [decode?, hF.read_write h, Option.bind_some]

/-- An object without a field twice gives what stands under each name. -/
theorem Lawful.record_of_nodup (hF : F.Lawful) (hnodup : (fields.map Prod.fst).Nodup)
    (short : Bool) : F.record? short names (.object fields) =
      some (names.map fun name => fields.lookup name) :=
  hF.record_object (hnodup.filter _)

end Format

end BoundedCache
