import PrReviewer.Js.RegExp

/-!
# Which lines look like a predicate

`filePredicateSignal` of `src/enforcement/requirement-trace.ts`. A scan of the file drops comments and the bodies of
strings and templates and carries an open block comment or template from line to line; a line whose remaining code has a
comparison, a guard, an assertion call or a match call counts as a predicate. A line is the list of its characters, and
the scan returns what is left of it behind a span.
-/

namespace PrReviewer.Enforcement

open Js

/-! ## Spans -/

/-- The open spans at a place of the file. -/
structure CodeSpanState where
  inBlockComment : Bool
  inTemplate : Bool
  /-- Inside an interpolation of a template. -/
  inInterpolation : Bool
  interpolationDepth : Nat
  deriving DecidableEq

def freshSpanState : CodeSpanState := ⟨false, false, false, 0⟩

/-- `findClosingQuote`: what follows the quote that closes a string, if the line has it. -/
def findClosingQuote (quote : Char) : List Char → Option (List Char)
  | [] => none
  | ['\\'] => none
  | '\\' :: _ :: cs => findClosingQuote quote cs
  | c :: cs => if c = quote then some cs else findClosingQuote quote cs

/-- What follows the first `*/`. -/
def afterBlockComment : List Char → Option (List Char)
  | [] => none
  | '*' :: '/' :: cs => some cs
  | _ :: cs => afterBlockComment cs

def backtick : Char := Char.ofNat 0x60

/-- `scanTemplateContent`: what follows the backtick that closes a template, if the line has it. -/
def scanTemplateContent (state : CodeSpanState) : List Char → Option (List Char) × CodeSpanState
  | [] => (none, state)
  | c :: cs =>
    if state.inInterpolation then
      if c = '{' then
        scanTemplateContent { state with interpolationDepth := state.interpolationDepth + 1 } cs
      else if c = '}' then
        scanTemplateContent
          { state with
            interpolationDepth := state.interpolationDepth - 1
            inInterpolation := decide (state.interpolationDepth - 1 ≠ 0) } cs
      else scanTemplateContent state cs
    else if c = '\\' then
      match cs with
      | [] => (none, state)
      | _ :: cs => scanTemplateContent state cs
    else if c = backtick then (some cs, state)
    else if c = '$' then
      match cs with
      | '{' :: cs => scanTemplateContent { state with inInterpolation := true, interpolationDepth := 1 } cs
      | cs => scanTemplateContent state cs
    else scanTemplateContent state cs

/-! ## Operators that are no predicate -/

/-- `code.replace(/=>|->/g, " ")`. -/
def blankArrows : List Char → List Char
  | [] => []
  | '=' :: '>' :: cs => ' ' :: blankArrows cs
  | '-' :: '>' :: cs => ' ' :: blankArrows cs
  | c :: cs => c :: blankArrows cs

/-- `code.replace(/\?(?:\?|:|\.(?![0-9]))/g, " ")`. -/
def blankMarkers : List Char → List Char
  | [] => []
  | '?' :: '?' :: cs => ' ' :: blankMarkers cs
  | '?' :: ':' :: cs => ' ' :: blankMarkers cs
  | '?' :: '.' :: cs => if (cs.head?.any isDigit) = true then '?' :: '.' :: blankMarkers cs else ' ' :: blankMarkers cs
  | c :: cs => c :: blankMarkers cs

def blankNonPredicateOperators (code : List Char) : List Char := blankMarkers (blankArrows code)

/-- `[A-Za-z0-9_$]`. -/
def isNameChar (c : Char) : Bool := RegExp.isWord c || c == '$'

/-- `GENERIC_LIST_CONTENT_RE`, which is `/[A-Za-z0-9_$\s,.[\]|&]/`. -/
def genericListContent (c : Char) : Bool := isNameChar c || isSpace c || [',', '.', '[', ']', '|', '&'].contains c

/-- `matchingGenericListClose`, as the number of characters from the opening `<` to its `>`, both included. -/
def matchingGenericListClose (depth : Nat) : List Char → Option Nat
  | [] => none
  | c :: cs =>
    if c = '<' then
      if cs.head? = some '<' then none else (matchingGenericListClose (depth + 1) cs).map (· + 1)
    else if c = '>' then
      if depth = 1 then some 1 else (matchingGenericListClose (depth - 1) cs).map (· + 1)
    else if !genericListContent c then none
    else if (c = '&' ∨ c = '|') ∧ cs.head? = some c then none
    else (matchingGenericListClose depth cs).map (· + 1)

/-- `blankGenericArgumentLists` behind the character `prev`, with `skip` more characters of a list to blank. -/
def blankGenericsFrom (skip : Nat) (prev : Option Char) : List Char → List Char
  | [] => []
  | c :: cs =>
    if 0 < skip then ' ' :: blankGenericsFrom (skip - 1) (some c) cs
    else if c = '<' ∧ prev.any isNameChar = true then
      match matchingGenericListClose 0 (c :: cs) with
      | some n => ' ' :: blankGenericsFrom (n - 1) (some c) cs
      | none => c :: blankGenericsFrom 0 (some c) cs
    else c :: blankGenericsFrom 0 (some c) cs

def blankGenericArgumentLists (code : List Char) : List Char := blankGenericsFrom 0 none code

/-! ## Code views -/

structure LineCodeView where
  raw : List Char
  blanked : List Char
  deriving DecidableEq

def EMPTY_LINE_VIEW : LineCodeView := ⟨[], []⟩

/-- What a scan of a line has found so far: the views, the run that is not flushed, the character before the place. -/
structure LineScan where
  raw : List Char
  blanked : List Char
  run : List Char
  prev : Option Char

def LineScan.start (prev : Option Char) : LineScan := ⟨[], [], [], prev⟩

section

variable (blankGenerics : Bool)

def LineScan.flush (s : LineScan) : LineScan :=
  { s with
    raw := s.raw ++ s.run
    blanked := s.blanked ++
      blankNonPredicateOperators (if blankGenerics then blankGenericArgumentLists s.run else s.run)
    run := [] }

/-- A blank in the place of a string or a template. -/
def LineScan.space (s : LineScan) : LineScan := { s with raw := s.raw ++ [' '], blanked := s.blanked ++ [' '] }

def LineScan.view (s : LineScan) : LineCodeView :=
  ⟨(s.flush blankGenerics).raw, (s.flush blankGenerics).blanked⟩

/-- The loop of `scanCodeView`. Every round takes a character, so the fuel is the length of the line. -/
def scanCode : Nat → LineScan → CodeSpanState → List Char → LineCodeView × CodeSpanState
  | 0, s, state, _ => (s.view blankGenerics, state)
  | _ + 1, s, state, [] => (s.view blankGenerics, state)
  | fuel + 1, s, state, c :: cs =>
    if c = '/' ∧ cs.head? = some '/' then (s.view blankGenerics, state)
    else if c = '/' ∧ cs.head? = some '*' then
      match afterBlockComment cs.tail with
      | none => (s.view blankGenerics, { state with inBlockComment := true })
      | some rest => scanCode fuel { s.flush blankGenerics with prev := some '/' } state rest
    else if c = '#' ∧ s.prev.all isSpace = true then (s.view blankGenerics, state)
    else if c = '\'' ∨ c = '"' then
      match findClosingQuote c cs with
      | none => ((s.flush blankGenerics).space.view blankGenerics, state)
      | some rest => scanCode fuel { (s.flush blankGenerics).space with prev := some c } state rest
    else if c = backtick then
      match scanTemplateContent state cs with
      | (none, state) =>
        -- an odd number of slashes in the code before: the backtick is taken to be inside a regular expression
        let state : CodeSpanState :=
          if (s.raw ++ s.run).count '/' % 2 = 0 then { state with inTemplate := true }
          else { state with inTemplate := false, inInterpolation := false, interpolationDepth := 0 }
        ((s.flush blankGenerics).space.view blankGenerics, state)
      | (some rest, state) =>
        scanCode fuel { (s.flush blankGenerics).space with prev := some backtick } state rest
    else scanCode fuel { s with run := s.run ++ [c], prev := some c } state cs

/-- `line.trimStart().startsWith("*")`. -/
def isDocLine (line : List Char) : Bool := (line.dropWhile isSpace).head? == some '*'

/-- `scanCodeView`. A block comment and a template are never open at once. -/
def scanCodeView (state : CodeSpanState) (line : List Char) : LineCodeView × CodeSpanState :=
  if state.inBlockComment then
    match afterBlockComment line with
    | none => (EMPTY_LINE_VIEW, state)
    | some rest => scanCode blankGenerics rest.length (.start (some '/')) { state with inBlockComment := false } rest
  else if state.inTemplate then
    match scanTemplateContent state line with
    | (none, state) => (EMPTY_LINE_VIEW, state)
    | (some rest, state) =>
      scanCode blankGenerics rest.length (.start (some backtick)) { state with inTemplate := false } rest
  else if isDocLine line then (EMPTY_LINE_VIEW, state)
  else scanCode blankGenerics line.length (.start none) state line

def viewsFrom (state : CodeSpanState) : List (List Char) → List LineCodeView
  | [] => []
  | line :: lines => (scanCodeView blankGenerics state line).1 :: viewsFrom (scanCodeView blankGenerics state line).2 lines

def computeCodeViews (lines : List (List Char)) : List LineCodeView := viewsFrom blankGenerics freshSpanState lines

end

/-! ## The signal -/

def COMPARISON_RE : RegExp :=
  .choice [.literal "===", .literal "!==", .literal "==", .literal "!=", .literal "<=", .literal ">=", .char (· == '<'),
    .char (· == '>')]

/-- `/\b(if|unless)\b/i`. -/
def GUARD_RE : RegExp :=
  .concat [.wordBoundary, .choice [.literalIgnoreCase "if", .literalIgnoreCase "unless"], .wordBoundary]

def LOGICAL_OR_TERNARY_RE : RegExp := .choice [.char (· == '?'), .literal "&&", .literal "||"]

/-- `/(?<![.\w$])throw\b/i`. -/
def THROW_KEYWORD_RE : RegExp :=
  .concat [.assert fun b _ => !b.any fun c => c == '.' || isNameChar c, .literalIgnoreCase "throw", .wordBoundary]

/-- `/\b(?:assert|must|expect|reject|invariant)(?:[A-Za-z0-9_]*\s*\(|\s*(?:\.\s*[A-Za-z_$][A-Za-z0-9_$]*\s*)+\()/i`. -/
def ASSERTION_CALL_RE : RegExp :=
  let spaces := RegExp.star .space
  let member := RegExp.concat [.char (· == '.'), spaces, .char fun c => isNameChar c && !isDigit c, .star (.char isNameChar),
    spaces]
  .concat [.wordBoundary,
    .choice (["assert", "must", "expect", "reject", "invariant"].map RegExp.literalIgnoreCase),
    .choice [.concat [.star (.char RegExp.isWord), spaces, .char (· == '(')],
      .concat [spaces, .plus member, .char (· == '(')]]]

/-- `/\.(includes|startsWith|endsWith|equals|match|test)\s*\(/i`. -/
def MATCH_CALL_RE : RegExp :=
  .concat [.char (· == '.'),
    .choice (["includes", "startsWith", "endsWith", "equals", "match", "test"].map RegExp.literalIgnoreCase),
    .star .space, .char (· == '(')]

def predicateSignalIn (view : LineCodeView) : Bool :=
  COMPARISON_RE.testFrom [] view.blanked || GUARD_RE.testFrom [] view.blanked
    || LOGICAL_OR_TERNARY_RE.testFrom [] view.blanked || THROW_KEYWORD_RE.testFrom [] view.raw
    || ASSERTION_CALL_RE.testFrom [] view.blanked || MATCH_CALL_RE.testFrom [] view.blanked

def filePredicateSignal (lines : List (List Char)) : List Bool := (computeCodeViews true lines).map predicateSignalIn

def filePredicateSignalIgnoringGenericArgumentLists (lines : List (List Char)) : List Bool :=
  (computeCodeViews false lines).map predicateSignalIn

end PrReviewer.Enforcement
