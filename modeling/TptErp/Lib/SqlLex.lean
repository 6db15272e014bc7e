import Mathlib.Data.List.Basic

/-!
# The tokens of a SQL text

A lexer as a machine over the characters, for words, texts in quotes and single symbols.  Within quotes a
doubled quote stands for one quote, and a single quote ends the token; no comments, no numbers, no
dollar quotes.

A text quoted by doubling its quotes is read back whole, whatever it holds (`run_quoted_doubled`,
`run_quote`).
-/

namespace SqlLex

/-- What is quoted: an identifier or a string. -/
inductive Quote
  | ident
  | string
deriving DecidableEq

inductive Token
  /-- A keyword, or a name without quotes. -/
  | word (w : String)
  | ident (name : String)
  | string (text : String)
  | typecast
  | symbol (c : Char)
deriving DecidableEq

namespace Quote

/-- The character around the text. -/
def mark : Quote → Char
  | .ident => '"'
  | .string => '\''

def token (q : Quote) (text : List Char) : Token :=
  match q with
  | .ident => .ident (String.ofList text)
  | .string => .string (String.ofList text)

end Quote

/-- Between two characters. -/
inductive State
  | blank
  | word (w : List Char)
  | quoted (q : Quote) (text : List Char)
  /-- After a mark: the last one, or the first of two. -/
  | marked (q : Quote) (text : List Char)
  | colon
deriving DecidableEq

def isWord (c : Char) : Bool := c.isAlphanum || c == '_' || c == '$'

/-- The first character after a token. -/
def start (c : Char) : State × List Token :=
  if c.isWhitespace then (.blank, [])
  else if c = Quote.ident.mark then (.quoted .ident [], [])
  else if c = Quote.string.mark then (.quoted .string [], [])
  else if c = ':' then (.colon, [])
  else if isWord c then (.word [c], [])
  else (.blank, [.symbol c])

def step : State → Char → State × List Token
  | .blank, c => start c
  | .word w, c =>
    if isWord c then (.word (w ++ [c]), [])
    else ((start c).1, .word (String.ofList w) :: (start c).2)
  | .quoted q text, c => if c = q.mark then (.marked q text, []) else (.quoted q (text ++ [c]), [])
  | .marked q text, c =>
    if c = q.mark then (.quoted q (text ++ [c]), []) else ((start c).1, q.token text :: (start c).2)
  | .colon, c => if c = ':' then (.blank, [.typecast]) else ((start c).1, .symbol ':' :: (start c).2)

/-- The state after a text, and the tokens that ended in it. -/
def run : State → List Char → State × List Token
  | st, [] => (st, [])
  | st, c :: text => ((run (step st c).1 text).1, (step st c).2 ++ (run (step st c).1 text).2)

/-- The token that the end of the text ends; within quotes the text may not end. -/
def finish : State → Option (List Token)
  | .blank => some []
  | .word w => some [.word (String.ofList w)]
  | .quoted _ _ => none
  | .marked q text => some [q.token text]
  | .colon => some [.symbol ':']

/-- The tokens of a text. -/
def lex (s : String) : Option (List Token) :=
  (finish (run .blank s.toList).1).map ((run .blank s.toList).2 ++ ·)

/-! ## One part after another -/

variable {st : State} {text rest : List Char}

theorem run_append (st : State) (text rest : List Char) :
    run st (text ++ rest) =
      ((run (run st text).1 rest).1, (run st text).2 ++ (run (run st text).1 rest).2) := by
  induction text generalizing st with
  | nil => rfl
  | cons c text ih => simp only [List.cons_append, run, ih, List.append_assoc]

/-- A text takes the lexer from one state to another, and these tokens end in it. -/
def Reads (st : State) (s : String) (st' : State) (out : List Token) : Prop := run st s.toList = (st', out)

instance (st : State) (s : String) (st' : State) (out : List Token) : Decidable (Reads st s st' out) :=
  inferInstanceAs (Decidable (run st s.toList = (st', out)))

theorem Reads.trans {st' st'' : State} {s t : String} {out out' : List Token} (h : Reads st s st' out)
    (h' : Reads st' t st'' out') : Reads st (s ++ t) st'' (out ++ out') := by
  rw [Reads, String.toList_append, run_append, h, h']

theorem Reads.lex {s : String} {out last : List Token} (h : Reads .blank s st out) (hlast : finish st = some last) :
    lex s = some (out ++ last) := by
  rw [SqlLex.lex, h, hlast]
  rfl

/-! ## Quoting -/

/-- The text with every mark doubled. -/
def doubled (q : Quote) (text : List Char) : List Char :=
  text.flatMap fun c => if c = q.mark then [q.mark, q.mark] else [c]

def quote (q : Quote) (text : List Char) : List Char := q.mark :: doubled q text ++ [q.mark]

/-- Within the quotes, a doubled text is taken for the text. -/
theorem run_quoted_doubled (q : Quote) (acc text : List Char) :
    run (.quoted q acc) (doubled q text) = (.quoted q (acc ++ text), []) := by
  induction text generalizing acc with
  | nil => simp [doubled, run]
  | cons c text ih =>
    have hone : run (.quoted q acc) (if c = q.mark then [q.mark, q.mark] else [c]) = (.quoted q (acc ++ [c]), []) := by
      by_cases h : c = q.mark <;> simp [run, step, h]
    rw [doubled, List.flatMap_cons, run_append, hone]
    simp only [List.nil_append]
    rw [← doubled, ih, List.append_assoc, List.singleton_append]

theorem start_mark (q : Quote) : start q.mark = (.quoted q [], []) := by cases q <;> decide

/-- A quoted text is one token, once it is known that no third mark follows. -/
theorem run_quote (q : Quote) (text : List Char) : run .blank (quote q text) = (.marked q text, []) := by
  have hin : run .blank [q.mark] = (.quoted q [], []) := by simp [run, step, start_mark]
  have hout : run (.quoted q text) [q.mark] = (.marked q text, []) := by simp [run, step]
  rw [quote, List.cons_append, ← List.singleton_append, run_append, hin, run_append, run_quoted_doubled]
  simp only [List.nil_append, hout]

/-- With a blank after it, the token has ended. -/
theorem Reads.marked (q : Quote) (text : List Char) {s : String} {out : List Token} (hblank : s.toList.head? = some ' ')
    (h : Reads .blank s st out) : Reads (.marked q text) s st (q.token text :: out) := by
  unfold Reads at h ⊢
  cases hs : s.toList with
  | nil =>
    rw [hs] at hblank
    cases hblank
  | cons c rest =>
    rw [hs] at hblank h
    obtain rfl : c = ' ' := Option.some.inj hblank
    obtain ⟨rfl, rfl⟩ := Prod.mk.inj h
    have hstep : step (.marked q text) ' ' = ((start ' ').1, q.token text :: (start ' ').2) := by
      cases q <;> rfl
    rw [run, hstep, List.cons_append]
    rfl

/-- A text without marks needs no doubling. -/
theorem doubled_of_notMem (q : Quote) (h : q.mark ∉ text) : doubled q text = text := by
  induction text with
  | nil => rfl
  | cons c text ih =>
    rw [List.mem_cons, not_or] at h
    rw [doubled, List.flatMap_cons, if_neg (fun heq => h.1 heq.symm), ← doubled, ih h.2, List.singleton_append]

end SqlLex
