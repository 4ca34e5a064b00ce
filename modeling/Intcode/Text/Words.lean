namespace Intcode.Text

inductive WordsError where
  | unclosedQuote
  | unfinishedEscape
deriving DecidableEq, Repr

def WordsError.message : WordsError → String
  | .unclosedQuote => "No closing quotation"
  | .unfinishedEscape => "No escaped character"

/-- Where the reader stands: between words or inside one, plain or within a pair of quotes. -/
inductive WordsMode where
  | between
  | plain
  | single
  | double
deriving DecidableEq, Repr

def isSeparator (c : Char) : Bool :=
  c = ' ' || c = '\t' || c = '\r' || c = '\n'

def wordsFrom : WordsMode → List Char → List Char → Except WordsError (List (List Char))
  | .between, _, [] => .ok []
  | .plain, word, [] => .ok [word.reverse]
  | .single, _, [] => .error .unclosedQuote
  | .double, _, [] => .error .unclosedQuote
  | .single, word, c :: rest =>
    if c = '\'' then wordsFrom .plain word rest else wordsFrom .single (c :: word) rest
  | .double, word, '\\' :: rest =>
    match rest with
    | [] => .error .unfinishedEscape
    | c :: rest' =>
      if c = '"' || c = '\\' then wordsFrom .double (c :: word) rest'
      else wordsFrom .double (c :: '\\' :: word) rest'
  | .double, word, c :: rest =>
    if c = '"' then wordsFrom .plain word rest else wordsFrom .double (c :: word) rest
  | .between, _, c :: rest =>
    if isSeparator c then wordsFrom .between [] rest
    else if c = '\'' then wordsFrom .single [] rest
    else if c = '"' then wordsFrom .double [] rest
    else if c = '\\' then
      match rest with
      | [] => .error .unfinishedEscape
      | c' :: rest' => wordsFrom .plain [c'] rest'
    else wordsFrom .plain [c] rest
  | .plain, word, c :: rest =>
    if isSeparator c then (wordsFrom .between [] rest).map (word.reverse :: ·)
    else if c = '\'' then wordsFrom .single word rest
    else if c = '"' then wordsFrom .double word rest
    else if c = '\\' then
      match rest with
      | [] => .error .unfinishedEscape
      | c' :: rest' => wordsFrom .plain (c' :: word) rest'
    else wordsFrom .plain (c :: word) rest

def words (s : String) : Except WordsError (List String) :=
  (wordsFrom .between [] s.toList).map (List.map String.ofList)

end Intcode.Text
