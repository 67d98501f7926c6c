/-!
Text as bytes. Writing and reading agree; bytes that are no text are found at the first place
where no character starts, and a lenient reading puts the replacement character there.
-/

namespace Notebook.Text

namespace Utf8

/-- How many bytes a text takes. -/
def size : List Char → Nat
  | [] => 0
  | c :: s => c.utf8Size + size s

@[simp] theorem size_nil : size [] = 0 := rfl

@[simp] theorem size_cons (c : Char) (s : List Char) : size (c :: s) = c.utf8Size + size s := rfl

@[simp] theorem size_append (s t : List Char) : size (s ++ t) = size s + size t := by
  induction s with
  | nil => simp
  | cons c s ih => simp [ih, Nat.add_assoc]

def encode (s : List Char) : List UInt8 := s.flatMap String.utf8EncodeChar

@[simp] theorem encode_nil : encode [] = [] := rfl

@[simp] theorem encode_cons (c : Char) (s : List Char) :
    encode (c :: s) = String.utf8EncodeChar c ++ encode s := by
  simp [encode]

@[simp] theorem encode_append (s t : List Char) : encode (s ++ t) = encode s ++ encode t := by
  simp [encode]

/-- The bytes of a character after its first one lie in these ranges. -/
def following? (first : UInt8) : Option (List (UInt8 × UInt8)) :=
  let any : UInt8 × UInt8 := (0x80, 0xBF)
  if first < 0x80 then some []
  else if first < 0xC2 then none
  else if first < 0xE0 then some [any]
  else if first = 0xE0 then some [(0xA0, 0xBF), any]
  else if first = 0xED then some [(0x80, 0x9F), any]
  else if first < 0xF0 then some [any, any]
  else if first = 0xF0 then some [(0x90, 0xBF), any, any]
  else if first < 0xF4 then some [any, any, any]
  else if first = 0xF4 then some [(0x80, 0x8F), any, any]
  else none

/-- How many of the bytes lie in their ranges, or nothing if the bytes end first. -/
def matching? : List (UInt8 × UInt8) → List UInt8 → Option Nat
  | [], _ => some 0
  | _ :: _, [] => none
  | (low, high) :: ranges, b :: bs =>
    if low ≤ b && b ≤ high then (matching? ranges bs).map (· + 1) else some 0

/-- How many bytes in front belong to a character that is broken off, or nothing if it is the end
that breaks it off. -/
def brokenLength? : List UInt8 → Option Nat
  | [] => none
  | b :: bs =>
    match following? b with
    | none => some 1
    | some ranges => (matching? ranges bs).map (· + 1)

/-- The character that the bytes start with. -/
def first? (bs : List UInt8) : Option Char := (bs.take 4).toByteArray.utf8DecodeChar? 0

/-- Where bytes are no text: after `index` bytes that are, at a character broken off. -/
structure Fault where
  index : Nat
  length : Option Nat
  deriving DecidableEq, Repr

def Fault.message (f : Fault) : String :=
  match f.length with
  | some n => s!"invalid utf-8 sequence of {n} bytes from index {f.index}"
  | none => s!"incomplete utf-8 byte sequence from index {f.index}"

theorem length_drop_utf8Size_lt (c : Char) (b : UInt8) (bs : List UInt8) :
    ((b :: bs).drop c.utf8Size).length < (b :: bs).length := by
  have := c.utf8Size_pos
  simp only [List.length_drop, List.length_cons]
  omega

def decodeFrom (index : Nat) (bs : List UInt8) : Except Fault (List Char) :=
  match bs with
  | [] => .ok []
  | b :: bs =>
    match first? (b :: bs) with
    | some c => (decodeFrom (index + c.utf8Size) ((b :: bs).drop c.utf8Size)).map (c :: ·)
    | none => .error ⟨index, brokenLength? (b :: bs)⟩
termination_by bs.length
decreasing_by exact length_drop_utf8Size_lt c b bs

def decode (bs : List UInt8) : Except Fault (List Char) := decodeFrom 0 bs

/-- The text with the replacement character for each character broken off. -/
def decodeLossy (bs : List UInt8) : List Char :=
  match bs with
  | [] => []
  | b :: bs =>
    match first? (b :: bs) with
    | some c => c :: decodeLossy ((b :: bs).drop c.utf8Size)
    | none =>
      match brokenLength? (b :: bs) with
      | some n => '\uFFFD' :: decodeLossy (bs.drop (n - 1))
      | none => ['\uFFFD']
termination_by bs.length
decreasing_by
  · exact length_drop_utf8Size_lt c b bs
  · simp only [List.length_drop, List.length_cons]; omega

theorem first?_encode (c : Char) (bs : List UInt8) :
    first? (String.utf8EncodeChar c ++ bs) = some c := by
  have h : (String.utf8EncodeChar c).length ≤ 4 := by
    rw [String.length_utf8EncodeChar]; exact c.utf8Size_le_four
  rw [first?, List.take_append, List.take_of_length_le h, List.toByteArray_append]
  exact ByteArray.utf8DecodeChar?_utf8EncodeChar_append

theorem decodeFrom_encode (index : Nat) (s : List Char) : decodeFrom index (encode s) = .ok s := by
  induction s generalizing index with
  | nil => simp [decodeFrom]
  | cons c s ih =>
    obtain ⟨b, bs, h⟩ : ∃ b bs, String.utf8EncodeChar c ++ encode s = b :: bs := by
      cases h : String.utf8EncodeChar c ++ encode s with
      | nil =>
        have := congrArg List.length h
        have := c.utf8Size_pos
        simp only [List.length_append, String.length_utf8EncodeChar, List.length_nil] at *
        omega
      | cons b bs => exact ⟨b, bs, rfl⟩
    have hc : first? (b :: bs) = some c := h ▸ first?_encode c (encode s)
    have hd : (b :: bs).drop c.utf8Size = encode s := by
      rw [← h, ← String.length_utf8EncodeChar, List.drop_left]
    rw [encode_cons, h, decodeFrom, hc]
    simp only [hd, ih]
    rfl

theorem decode_encode (s : List Char) : decode (encode s) = .ok s := decodeFrom_encode 0 s

end Utf8

end Notebook.Text
