import Calculator.Literal
import Calculator.Token

namespace Calculator

structure Lexeme where
  token : Token
  start : Nat
  text : String
  deriving DecidableEq, Repr

namespace Lexeme

def stop (l : Lexeme) : Nat :=
  l.start + l.text.utf8ByteSize

def isEnd (l : Lexeme) : Bool :=
  l.token.isEnd

theorem start_le_stop (l : Lexeme) : l.start ≤ l.stop :=
  Nat.le_add_right _ _

end Lexeme

def isBlank (c : Char) : Bool :=
  c == ' ' || c == '\t' || c == '\n' || c == '\r'

def Token.ofChar : Char → Token
  | '+' => operator .add
  | '-' => operator .sub
  | '*' => operator .mul
  | '/' => operator .div
  | '(' => leftParen
  | ')' => rightParen
  | c => invalid c

theorem Token.isEnd_ofChar (c : Char) : (Token.ofChar c).isEnd = false := by
  unfold ofChar
  split <;> rfl

def Token.ofText : List Char → Token
  | [] => endOfInput
  | c :: cs => if c.isDigit then number (Literal.value (String.ofList (c :: cs))) else ofChar c

theorem Token.isEnd_ofText (text : List Char) : (Token.ofText text).isEnd = text.isEmpty := by
  cases text with
  | nil => rfl
  | cons c cs =>
    simp only [ofText]
    split
    · rfl
    · simpa using isEnd_ofChar c

/-- The text of the first token and what follows it: a run of digits as long as it goes, or one
character. -/
def cut : List Char → List Char × List Char
  | [] => ([], [])
  | c :: cs =>
    if c.isDigit then (c :: cs.takeWhile Char.isDigit, cs.dropWhile Char.isDigit) else ([c], cs)

theorem cut_append (cs : List Char) : (cut cs).1 ++ (cut cs).2 = cs := by
  cases cs with
  | nil => rfl
  | cons c cs =>
    simp only [cut]
    split <;> simp [List.takeWhile_append_dropWhile]

theorem cut_fst_isEmpty (cs : List Char) : (cut cs).1.isEmpty = cs.isEmpty := by
  cases cs with
  | nil => rfl
  | cons c cs =>
    simp only [cut]
    split <;> rfl

/-- The characters not yet scanned, the byte offset of the first of them, and the lexeme handed out
last. -/
structure Tokenizer where
  ahead : List Char
  cursor : Nat
  latest : Option Lexeme
  deriving DecidableEq, Repr

namespace Tokenizer

def ofString (source : String) : Tokenizer :=
  ⟨source.toList, 0, none⟩

def span (t : Tokenizer) : Nat × Nat :=
  match t.latest with
  | none => (0, 0)
  | some l => (l.start, l.stop)

def text (t : Tokenizer) : String :=
  match t.latest with
  | none => ""
  | some l => l.text

/-- Hands out the first lexeme behind the blanks, and at the end of the input its end, again and
again. -/
def next (t : Tokenizer) : Lexeme × Tokenizer :=
  let blanks := t.ahead.takeWhile isBlank
  let pieces := cut (t.ahead.dropWhile isBlank)
  let lexeme : Lexeme :=
    { token := .ofText pieces.1
      start := t.cursor + (String.ofList blanks).utf8ByteSize
      text := String.ofList pieces.1 }
  (lexeme, ⟨pieces.2, lexeme.stop, some lexeme⟩)

theorem next_isEnd (t : Tokenizer) :
    t.next.1.isEnd = (t.ahead.dropWhile isBlank).isEmpty := by
  simp only [next, Lexeme.isEnd]
  rw [Token.isEnd_ofText, cut_fst_isEmpty]

theorem next_cursor (t : Tokenizer) : t.next.2.cursor = t.next.1.stop := rfl

theorem next_text_append (t : Tokenizer) :
    t.ahead.takeWhile isBlank ++ (t.next.1.text.toList ++ t.next.2.ahead) = t.ahead := by
  simp only [next, String.toList_ofList]
  rw [cut_append, List.takeWhile_append_dropWhile]

theorem next_ahead_lt (t : Tokenizer) (h : t.next.1.isEnd = false) :
    t.next.2.ahead.length < t.ahead.length := by
  have hlen := congrArg List.length t.next_text_append
  have hne : t.next.1.text.toList ≠ [] := by
    intro he
    rw [next_isEnd, ← cut_fst_isEmpty] at h
    simp only [next, String.toList_ofList] at he
    simp [he] at h
  have := List.length_pos_iff.mpr hne
  simp only [List.length_append] at hlen
  omega

def next? (t : Tokenizer) : Option Lexeme × Tokenizer :=
  let step := t.next
  (if step.1.isEnd then none else some step.1, step.2)

/-- Up to `n` lexemes; the end of the input is looked for only while some are missing. -/
def take : Nat → Tokenizer → List Lexeme × Tokenizer
  | 0, t => ([], t)
  | n + 1, t =>
    let step := t.next
    if step.1.isEnd then ([], step.2)
    else
      let others := take n step.2
      (step.1 :: others.1, others.2)

def lexemes (t : Tokenizer) : List Lexeme :=
  if _ : t.next.1.isEnd then [] else t.next.1 :: t.next.2.lexemes
termination_by t.ahead.length
decreasing_by exact t.next_ahead_lt (by simp_all)

def collectOnto (t : Tokenizer) (collected : Array Lexeme) : Array Lexeme × Tokenizer :=
  let step := t.next
  if _ : step.1.isEnd then (collected, step.2)
  else step.2.collectOnto (collected.push step.1)
termination_by t.ahead.length
decreasing_by exact t.next_ahead_lt (by simp_all [step])

def collect (t : Tokenizer) : List Lexeme × Tokenizer :=
  let result := t.collectOnto #[]
  (result.1.toList, result.2)

theorem collectOnto_fst (t : Tokenizer) (collected : Array Lexeme) :
    (t.collectOnto collected).1.toList = collected.toList ++ t.lexemes := by
  fun_induction collectOnto t collected with
  | case1 t collected step h =>
    rw [lexemes, dif_pos h, List.append_nil]
  | case2 t collected step h ih =>
    rw [ih, lexemes.eq_1 t, dif_neg h, Array.toList_push, List.append_assoc]
    rfl

theorem collect_fst (t : Tokenizer) : t.collect.1 = t.lexemes := by
  simp [collect, collectOnto_fst]

end Tokenizer

end Calculator
