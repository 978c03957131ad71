import SmallLisp.Proofs.Printing.LiteralLexeme
import SmallLisp.Proofs.Reading.ErrorPlace
import SmallLisp.Proofs.Reading.NumberToken
import SmallLisp.Settings.Scalar
import SmallLisp.TopLevel.Emit

/-!
# Values of strings and runes

What Go reads in a literal: a string is a sequence of bytes, a rune a code point. The escapes of the
printer are read back as the characters that they stand for (`element?_encodeChar`), so the literal
of a string has the bytes of the string and no others, and the literal of a character has its code
point (`text_literals_denote`).
-/

namespace SmallLisp

open Outcome
open Settings (natOfDigits hexValue scalar?)

namespace Program

/-! ## Literals with quotes -/

/-- What a character or an escape between quotes stands for. -/
inductive Element where
  | char (c : Char)
  /-- The escapes with octal digits and with two hexadecimal ones. -/
  | byte (b : UInt8)
  deriving DecidableEq

namespace Element

/-- The part of a string that the element is. -/
def bytes : Element → ByteArray
  | .char c => (String.singleton c).toUTF8
  | .byte b => [b].toByteArray

/-- The rune that the element is. -/
def code : Element → Nat
  | .char c => c.toNat
  | .byte b => b.toNat

/-- The byte with the given digits. -/
def ofDigits? (base : Nat) (ds : List Char) : Option Element :=
  if ds.all (fun d => Numeral.isHexDigit d && hexValue d < base) && natOfDigits base ds < 256 then
    some (.byte (UInt8.ofNat (natOfDigits base ds)))
  else
    none

/-- The character whose code point has the given hexadecimal digits. -/
def ofCodePoint? (ds : List Char) : Option Element := (scalar? ds).map .char

end Element

/-- The letters that stand for one character after a backslash, in any literal. -/
def escapeLetters : List (Char × Char) :=
  [('a', '\x07'), ('b', '\x08'), ('f', '\x0c'), ('n', '\n'), ('r', '\r'), ('t', '\t'),
    ('v', '\x0b'), ('\\', '\\')]

/-- An element with a fixed number of digits in front of a text, and what follows it. -/
def afterDigits? (count : Nat) (value? : List Char → Option Element) (cs : List Char) :
    Option (Element × List Char) :=
  if count ≤ cs.length then (value? (cs.take count)).map fun e => (e, cs.drop count) else none

/-- The escape in front of a text that stands after a backslash. Of the two quotes only the one
around the literal may be escaped. -/
def escape? (quote : Char) : List Char → Option (Element × List Char)
  | [] => none
  | c :: cs =>
    match ((quote, quote) :: escapeLetters).lookup c with
    | some d => some (.char d, cs)
    | none =>
      match c with
      | 'x' => afterDigits? 2 (Element.ofDigits? 16) cs
      | 'u' => afterDigits? 4 Element.ofCodePoint? cs
      | 'U' => afterDigits? 8 Element.ofCodePoint? cs
      | _ => afterDigits? 3 (Element.ofDigits? 8) (c :: cs)

/-- The first element of a text between quotes, and what follows it. -/
def element? (quote : Char) : List Char → Option (Element × List Char)
  | [] => none
  | c :: cs =>
    if c = '\\' then escape? quote cs
    else if c = quote ∨ c = '\n' then none
    else some (.char c, cs)

/-- The bytes that a text between double quotes stands for. -/
inductive StringValue : List Char → ByteArray → Prop
  | nil : StringValue [] .empty
  | cons : element? '"' cs = some (e, rest) → StringValue rest bs → StringValue cs (e.bytes ++ bs)

/-- The text is a string literal, and these are its bytes. -/
def DenotesString (cs : List Char) (bs : ByteArray) : Prop :=
  ∃ body, cs = '"' :: (body ++ ['"']) ∧ StringValue body bs

/-- The text is a rune literal, and this is its code point. -/
def DenotesRune (cs : List Char) (n : Nat) : Prop :=
  ∃ body e, cs = '\'' :: (body ++ ['\'']) ∧ element? '\'' body = some (e, []) ∧ n = e.code

/-- The text stands between two quotes, and no other quote in it is without a backslash. -/
def IsQuoted (quote : Char) (cs : List Char) : Prop :=
  ∃ body, cs = quote :: (body ++ [quote]) ∧ QuotedBody quote body

theorem StringValue.unique (h : StringValue cs bs) (h' : StringValue cs bs') : bs = bs' := by
  induction h generalizing bs' with
  | nil =>
    cases h' with
    | nil => rfl
    | cons he _ => cases he
  | cons he _ ih =>
    cases h' with
    | nil => cases he
    | cons he' hrest =>
      cases he.symm.trans he'
      rw [ih hrest]

/-! ## Strings -/

theorem ofDigits?_twoHexDigits : ∀ n < 128,
    Element.ofDigits? 16 [Nat.digitChar (n / 16 % 16), Nat.digitChar (n % 16)] =
      some (.byte (UInt8.ofNat n)) := by
  decide

theorem bytes_ascii {c : Char} (h : c.toNat < 128) :
    (Element.byte (UInt8.ofNat c.toNat)).bytes = [c].utf8Encode := by
  have hcode : c.val.toNat ≤ 0x7f := Nat.le_of_lt_succ h
  rw [List.utf8Encode_singleton, String.utf8EncodeChar, if_pos hcode]
  rfl

/-- What a character of a string is printed as is read as that character. -/
theorem element?_encodeChar (c : Char) (rest : List Char) :
    ∃ e, element? '"' (quoting.encodeChar c ++ rest) = some (e, rest) ∧
      e.bytes = [c].utf8Encode := by
  rcases encodeChar_cases c with ⟨l, hl, h⟩ | ⟨hc, h⟩ | ⟨hquote, hslash, hspace, -, h⟩ <;> rw [h]
  · refine ⟨.char c, ?_, String.toByteArray_singleton⟩
    clear h
    unfold Text.escapeLetter at hl
    split at hl <;> cases hl <;> rfl
  · refine ⟨.byte (UInt8.ofNat c.toNat), ?_, bytes_ascii hc⟩
    have hdigits := ofDigits?_twoHexDigits c.toNat hc
    change afterDigits? 2 (Element.ofDigits? 16) (Text.twoHexDigits c ++ rest) = _
    rw [afterDigits?, if_pos (by simp [Text.twoHexDigits])]
    change (Element.ofDigits? 16 (Text.twoHexDigits c)).map _ = _
    rw [Text.twoHexDigits, hdigits]
    rfl
  · refine ⟨.char c, ?_, String.toByteArray_singleton⟩
    have hbreak : c ≠ '\n' := by
      rintro rfl
      exact absurd hspace (by decide)
    rw [List.singleton_append, element?, if_neg hslash, if_neg (not_or.2 ⟨hquote, hbreak⟩)]

theorem stringValue_encode (cs : List Char) :
    StringValue (quoting.encode cs) cs.utf8Encode := by
  induction cs with
  | nil => exact List.utf8Encode_nil ▸ .nil
  | cons c cs ih =>
    obtain ⟨e, he, hbytes⟩ := element?_encodeChar c (quoting.encode cs)
    rw [Text.Quoting.encode_cons, List.utf8Encode_cons, ← hbytes]
    exact .cons he ih

theorem denotesString_write_iff {s : String} {bs : ByteArray} :
    DenotesString (quoting.write s) bs ↔ bs = s.toUTF8 := by
  have hbytes : s.toUTF8 = s.toList.utf8Encode := by
    conv => lhs; rw [← String.ofList_toList (s := s)]
    exact String.toByteArray_ofList
  rw [hbytes]
  constructor
  · rintro ⟨body, hbody, hvalue⟩
    obtain rfl := List.append_cancel_right (List.tail_eq_of_cons_eq hbody)
    exact hvalue.unique (stringValue_encode s.toList)
  · rintro rfl
    exact ⟨_, rfl, stringValue_encode s.toList⟩

theorem isQuoted_write (s : String) : IsQuoted '"' (quoting.write s) :=
  ⟨quoting.encode s.toList, rfl, quotedBody_encode s.toList⟩

/-! ## Runes -/

theorem exists_element?_rune {c : Char} {cs : List Char} (h : IsRune c cs) :
    ∃ body, cs = '\'' :: (body ++ ['\'']) ∧ element? '\'' body = some (.char c, []) := by
  cases h with
  | plain hc =>
    simp only [List.mem_cons, List.not_mem_nil, or_false, not_or] at hc
    obtain ⟨hbreak, -, -, hquote, hslash⟩ := hc
    refine ⟨[c], rfl, ?_⟩
    rw [element?, if_neg hslash, if_neg (not_or.2 ⟨hquote, hbreak⟩)]
  | @escaped letter hletter =>
    refine ⟨['\\', letter], rfl, ?_⟩
    simp only [List.mem_cons, Prod.mk.injEq, List.not_mem_nil, or_false] at hletter
    rcases hletter with ⟨rfl, rfl⟩ | ⟨rfl, rfl⟩ | ⟨rfl, rfl⟩ | ⟨rfl, rfl⟩ | ⟨rfl, rfl⟩ <;> rfl

theorem denotesRune_literal_iff {c : Char} {n : Nat} :
    DenotesRune (Rune.literal c).toList n ↔ n = c.toNat := by
  obtain ⟨body, hbody, helement⟩ := exists_element?_rune (isRune_iff.2 rfl : IsRune c _)
  constructor
  · rintro ⟨body', e, hbody', helement', rfl⟩
    obtain rfl := List.append_cancel_right (List.tail_eq_of_cons_eq (hbody.symm.trans hbody'))
    cases helement.symm.trans helement'
    rfl
  · rintro rfl
    exact ⟨body, _, hbody, helement, rfl⟩

end Program

open Program

/-! ## Tokens of strings -/

namespace Reader

namespace State

variable {s t : State} {c : Char} {body : List Char}

/-- Between its quotes a string is read as the text that it spells. -/
theorem run_stringText {start : Position} {chars : List Char} (hbody : QuotedBody '"' body)
    (hmode : s.mode = .string start chars) (h : run s body = .ok t) :
    ∃ value, StringText value body ∧ t = { s with
      position := body.foldl Position.advance s.position
      mode := .string start (value.reverse ++ chars) } := by
  induction hbody generalizing s chars with
  | nil =>
    obtain rfl := Except.ok.inj h
    refine ⟨[], .nil, ?_⟩
    obtain ⟨position, outer, items, mode⟩ := s
    cases hmode
    rfl
  | @plain c body hquote hslash _ ih =>
    obtain ⟨u, hu, h⟩ := bind_eq_ok.1 h
    have htake : s.take c = .ok { s with mode := .string start (c :: chars) } := by
      rw [take, hmode]
      simp only [if_neg hquote, if_neg hslash]
    rw [step, htake] at hu
    cases hu
    obtain ⟨value, hvalue, rfl⟩ := ih rfl h
    refine ⟨c :: value, .plain hquote hslash hvalue, ?_⟩
    rw [List.reverse_cons, List.append_assoc, List.singleton_append, List.foldl_cons]
  | @escaped body c _ ih =>
    obtain ⟨u, hu, h⟩ := bind_eq_ok.1 h
    obtain ⟨v, hv, h⟩ := bind_eq_ok.1 h
    have htake : s.take '\\' = .ok { s with mode := .escape start chars } := by
      rw [take, hmode]
      rfl
    rw [step, htake] at hu
    cases hu
    cases hc : Text.escapedChar c with
    | none =>
      simp only [step, take, hc] at hv
      cases hv
    | some d =>
      simp only [step, take, hc] at hv
      cases hv
      obtain ⟨value, hvalue, rfl⟩ := ih rfl h
      refine ⟨d :: value, .escaped (mem_of_escapedChar hc) hvalue, ?_⟩
      rw [List.reverse_cons, List.append_assoc, List.singleton_append, List.foldl_cons,
        List.foldl_cons]

/-- A quote starts a string here, and leads to `u`. Any other token under way ends before it. -/
def StartsString (s u : State) : Prop := s.take '"' = .ok u ∧ ∃ start, u.mode = .string start []

/-- A string token that is accepted is read as the text that it spells. -/
theorem StartsString.run {u : State} {cs : List Char} (hstart : s.StartsString u)
    (hcs : IsQuoted '"' cs) (h : run s cs = .ok t) :
    ∃ (value : String) (body : List Char), cs = '"' :: (body ++ ['"']) ∧
      StringText value.toList body ∧ t.stack = u.stack.push (.string value) := by
  obtain ⟨hopen, start, hmode⟩ := hstart
  obtain ⟨body, rfl, hbody⟩ := hcs
  rw [run_cons] at h
  obtain ⟨v, hv, h⟩ := bind_eq_ok.1 h
  rw [step, hopen] at hv
  cases hv
  rw [run_append] at h
  obtain ⟨w, hw, h⟩ := bind_eq_ok.1 h
  have hmode : ({ u with position := s.position.advance '"' } : State).mode = .string start [] :=
    hmode
  obtain ⟨value, hvalue, rfl⟩ := run_stringText hbody hmode hw
  refine ⟨String.ofList value, body, rfl, String.toList_ofList ▸ hvalue, ?_⟩
  cases h
  simp [push, stack, Stack.push, Atom.datum]

end State

end Reader

open Reader (State StringText)

theorem Datum.compile_string (value : String) (cfg : Config) (s : Session) :
    ((Datum.string value).compile cfg).outcome s = (.ok (.string value), s) := by
  rw [Datum.compile, Datum.check]
  rfl

theorem Program.Import.chars_eq (i : Import) : ∃ front, i.chars = front ++ quoting.write i.path :=
  ⟨_, rfl⟩

/-- The literal of a string stands on one line between its only two bare quotes and has the bytes of
the string, and the literal of a character has its code point. So what is printed for a string token
that the reader accepts, be it an expression or the path of an import, has the bytes of the text
that the token spells. -/
theorem text_literals_denote :
    (∀ s : String, IsQuoted '"' (quoting.write s) ∧
      (∀ c ∈ quoting.write s, 0x20 ≤ c.toNat ∧ c.toNat ≠ 0x7f) ∧
      ∀ bs, DenotesString (quoting.write s) bs ↔ bs = s.toUTF8) ∧
    (∀ c n, DenotesRune (Rune.literal c).toList n ↔ n = c.toNat) ∧
    ∀ (s u t : State) (cs : List Char), s.StartsString u → IsQuoted '"' cs →
      Reader.run s cs = .ok t →
      ∃ (value : String) (body : List Char), cs = '"' :: (body ++ ['"']) ∧
        StringText value.toList body ∧ t.stack = u.stack.push (.string value) ∧
        (∀ cfg session, ∃ e, ((Datum.string value).compile cfg).outcome session = (.ok e, session) ∧
          ∀ k bs, DenotesString (e.chars k) bs ↔ bs = value.toUTF8) ∧
        ∀ alias?, ∃ front literal, (⟨alias?, value⟩ : Import).chars = front ++ literal ∧
          ∀ bs, DenotesString literal bs ↔ bs = value.toUTF8 := by
  refine ⟨fun s => ⟨isQuoted_write s, fun c => printable_of_mem_write, fun bs =>
    denotesString_write_iff⟩, fun c n => denotesRune_literal_iff, ?_⟩
  intro s u t cs hstart hcs hrun
  obtain ⟨value, body, hbody, htext, hstack⟩ := hstart.run hcs hrun
  refine ⟨value, body, hbody, htext, hstack, fun cfg session => ?_, fun alias? => ?_⟩
  · exact ⟨_, Datum.compile_string value cfg session, fun k bs => denotesString_write_iff⟩
  · obtain ⟨front, hfront⟩ := Import.chars_eq ⟨alias?, value⟩
    exact ⟨front, _, hfront, fun bs => denotesString_write_iff⟩

/-- An escaped control character before what could be a third digit. -/
theorem text_literals_denote_digitAfter :
    ∃ e, ((Datum.string "\t\"\x01f").compile {}).outcome {} = (.ok e, {}) ∧
      e.chars 0 = "\"\\t\\\"\\x01f\"".toList ∧
      DenotesString (e.chars 0) "\t\"\x01f".toUTF8 := by
  have hquoted : IsQuoted '"' "\"\\t\\\"\x01f\"".toList :=
    ⟨_, rfl, .escaped (.escaped (.plain (by decide) (by decide)
      (.plain (by decide) (by decide) .nil)))⟩
  obtain ⟨value, body, -, -, hstack, hcompile, -⟩ :=
    text_literals_denote.2.2 .initial _ _ _ ⟨rfl, _, rfl⟩ hquoted rfl
  cases hstack
  obtain ⟨e, he, hdenotes⟩ := hcompile {} {}
  obtain rfl : .string "\t\"\x01f" = e :=
    Except.ok.inj (congrArg Prod.fst ((Datum.compile_string _ _ _).symm.trans he))
  exact ⟨_, he, rfl, (hdenotes 0 _).2 rfl⟩

end SmallLisp
