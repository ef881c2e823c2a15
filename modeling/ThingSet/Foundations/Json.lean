import Mathlib.Data.Nat.Notation

/-!
# JSON string literals

A string literal stands between quotes. Its characters denote themselves, except that a backslash starts an
escape; a quote, a backslash and a control character are written as escapes only. Texts are UTF-8, and the
bytes of a character that is not ASCII denote themselves one by one.

* `Body`, `Literal`: what the text between the quotes, and what the literal denotes.
* `Body.plain_of_self`: a text that denotes itself has no escapes.
-/

namespace Json

/-- The characters that denote themselves. -/
def IsPlain (c : UInt8) : Prop := 0x20 ≤ c ∧ c ≠ 0x22 ∧ c ≠ 0x5C

/-- The character that a backslash and this one denote. -/
def escapeValue (c : UInt8) : Option UInt8 :=
  if c = 0x22 ∨ c = 0x5C ∨ c = 0x2F then some c
  else if c = 0x62 then some 0x08
  else if c = 0x66 then some 0x0C
  else if c = 0x6E then some 0x0A
  else if c = 0x72 then some 0x0D
  else if c = 0x74 then some 0x09
  else none

/-- A hexadecimal digit. -/
def hexValue (c : UInt8) : Option ℕ :=
  if 0x30 ≤ c ∧ c ≤ 0x39 then some (c.toNat - 0x30)
  else if 0x41 ≤ c ∧ c ≤ 0x46 then some (c.toNat - 0x41 + 10)
  else if 0x61 ≤ c ∧ c ≤ 0x66 then some (c.toNat - 0x61 + 10)
  else none

/-- Four hexadecimal digits are a code unit. -/
def CodeUnit (a b c d : UInt8) (n : ℕ) : Prop :=
  ∃ w x y z, hexValue a = some w ∧ hexValue b = some x ∧ hexValue c = some y ∧ hexValue d = some z ∧
    n = 4096 * w + 256 * x + 16 * y + z

/-- What the text between the quotes denotes. -/
inductive Body : List UInt8 → List UInt8 → Prop
  | nil : Body [] []
  | plain {c : UInt8} {text value : List UInt8} (hc : IsPlain c) (h : Body text value) :
    Body (c :: text) (c :: value)
  | escape {e c : UInt8} {text value : List UInt8} (he : escapeValue e = some c) (h : Body text value) :
    Body (0x5C :: e :: text) (c :: value)
  | unicode {a b c d : UInt8} {n : ℕ} {text value : List UInt8} (hn : CodeUnit a b c d n)
    (hchar : n.isValidChar) (h : Body text value) :
    Body (0x5C :: 0x75 :: a :: b :: c :: d :: text) (String.utf8EncodeChar (Char.ofNat n) ++ value)
  | surrogates {a b c d a' b' c' d' : UInt8} {m n : ℕ} {text value : List UInt8} (hm : CodeUnit a b c d m)
    (hn : CodeUnit a' b' c' d' n) (hhigh : 0xD800 ≤ m ∧ m < 0xDC00) (hlow : 0xDC00 ≤ n ∧ n < 0xE000)
    (h : Body text value) :
    Body (0x5C :: 0x75 :: a :: b :: c :: d :: 0x5C :: 0x75 :: a' :: b' :: c' :: d' :: text)
      (String.utf8EncodeChar (Char.ofNat (0x10000 + 0x400 * (m - 0xD800) + (n - 0xDC00))) ++ value)

/-- What a string literal denotes. -/
def Literal (text value : List UInt8) : Prop := ∃ body, text = 0x22 :: (body ++ [0x22]) ∧ Body body value

theorem body_of_plain {value : List UInt8} (h : ∀ c ∈ value, IsPlain c) : Body value value := by
  induction value with
  | nil => exact .nil
  | cons c value ih =>
    exact .plain (h c List.mem_cons_self) (ih fun c hc => h c (List.mem_cons_of_mem _ hc))

/-- A character has at most four bytes. -/
theorem length_utf8EncodeChar_append (c : Char) {text value : List UInt8} (h : value.length ≤ text.length) :
    (String.utf8EncodeChar c ++ value).length ≤ text.length + 4 := by
  have hsize := c.utf8Size_le_four
  rw [List.length_append, String.length_utf8EncodeChar]
  omega

/-- What a text denotes is no longer than the text. -/
theorem Body.length_le {text value : List UInt8} (h : Body text value) : value.length ≤ text.length := by
  induction h with
  | nil => exact Nat.le_refl 0
  | plain _ _ ih => exact Nat.succ_le_succ ih
  | escape _ _ ih =>
    simp only [List.length_cons]
    omega
  | @unicode _ _ _ _ n _ _ _ _ _ ih =>
    have hlen := length_utf8EncodeChar_append (Char.ofNat n) ih
    simp only [List.length_cons] at hlen ⊢
    omega
  | @surrogates _ _ _ _ _ _ _ _ m n _ _ _ _ _ _ _ ih =>
    have hlen := length_utf8EncodeChar_append
      (Char.ofNat (0x10000 + 0x400 * (m - 0xD800) + (n - 0xDC00))) ih
    simp only [List.length_cons] at hlen ⊢
    omega

/-- A text that is as long as what it denotes has no escapes. -/
theorem Body.plain_of_length {text value : List UInt8} (h : Body text value)
    (hlen : value.length = text.length) : ∀ c ∈ value, IsPlain c := by
  induction h with
  | nil => exact fun c hc => absurd hc List.not_mem_nil
  | plain hc _ ih =>
    intro c hmem
    rcases List.mem_cons.1 hmem with rfl | hmem
    · exact hc
    · exact ih (Nat.succ.inj hlen) c hmem
  | escape _ h _ =>
    have hle := h.length_le
    simp only [List.length_cons] at hlen
    omega
  | @unicode _ _ _ _ n _ _ _ _ h _ =>
    have hle := length_utf8EncodeChar_append (Char.ofNat n) h.length_le
    simp only [List.length_cons] at hlen
    omega
  | @surrogates _ _ _ _ _ _ _ _ m n _ _ _ _ _ _ h _ =>
    have hle := length_utf8EncodeChar_append
      (Char.ofNat (0x10000 + 0x400 * (m - 0xD800) + (n - 0xDC00))) h.length_le
    simp only [List.length_cons] at hlen
    omega

/-- **A text that denotes itself has no escapes.** -/
theorem Body.plain_of_self {value : List UInt8} (h : Body value value) : ∀ c ∈ value, IsPlain c :=
  h.plain_of_length rfl

end Json
