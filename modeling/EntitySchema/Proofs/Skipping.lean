import EntitySchema.Proofs.Spelling

/-!
# Passing over spelled values

A value that no layout asks for is passed over up to its end and no further, whatever its spelling
and however deep it nests (`skipValue_text`). What follows the value is free, as long as it does not
continue a number (`Delimited`).

## Implementation notes

The brackets that enclose a value are a list, and passing over the value hands over to the innermost
of them. `Passes` therefore speaks of all enclosing brackets and of the steps that are left; the
steps that a value takes are at most two for each of its characters.
-/

namespace EntitySchema.Json

namespace Position

/-- The position behind a character. -/
def step (p : Position) (x : Char) : Position :=
  if x = '\n' then ⟨p.line + 1, 0⟩ else ⟨p.line, p.column + x.utf8Size⟩

/-- The position behind a text. -/
def after (p : Position) (cs : List Char) : Position := cs.foldl step p

@[simp] theorem after_nil (p : Position) : p.after [] = p := rfl

@[simp] theorem after_cons (p : Position) (x : Char) (cs : List Char) :
    p.after (x :: cs) = (p.step x).after cs := rfl

@[simp] theorem after_append (p : Position) (cs ds : List Char) :
    p.after (cs ++ ds) = (p.after cs).after ds :=
  List.foldl_append

end Position

namespace Cursor

@[simp] theorem peek_cons (x : Char) (cs : List Char) (p : Position) :
    peek ⟨x :: cs, p⟩ = some x := rfl

@[simp] theorem advance_cons (x : Char) (cs : List Char) (p : Position) :
    advance ⟨x :: cs, p⟩ = ⟨cs, p.step x⟩ := rfl

theorem skipWhile_append {q : Char → Bool} {cs : List Char} (h : ∀ x ∈ cs, q x = true)
    (rest : List Char) (p : Position) :
    skipWhile q (cs ++ rest) p = skipWhile q rest (p.after cs) := by
  induction cs generalizing p with
  | nil => rfl
  | cons x cs ih =>
    obtain ⟨hx, hcs⟩ := List.forall_mem_cons.1 h
    rw [List.cons_append, skipWhile, if_pos hx]
    exact ih hcs _

theorem skipWhile_of_stop {q : Char → Bool} {cs : List Char} (h : ∀ x ∈ cs.head?, q x = false)
    (p : Position) : skipWhile q cs p = ⟨cs, p⟩ := by
  cases cs with
  | nil => rfl
  | cons x cs =>
    have hx : q x = false := h x rfl
    rw [skipWhile, if_neg (by simp [hx])]

theorem isBlank_of_mem (ws : Blanks) {x : Char} (h : x ∈ ws.chars) : isBlank x = true := by
  have hx := ws.blank x h
  simp only [List.mem_cons, List.not_mem_nil, or_false] at hx
  obtain rfl | rfl | rfl | rfl := hx <;> decide

@[simp] theorem skipBlanks_append (ws : Blanks) (cs : List Char) (p : Position) :
    skipBlanks ⟨ws.chars ++ cs, p⟩ = skipBlanks ⟨cs, p.after ws.chars⟩ :=
  skipWhile_append (fun _ hx => isBlank_of_mem ws hx) cs p

theorem skipBlanks_cons {x : Char} (h : isBlank x = false) (cs : List Char) (p : Position) :
    skipBlanks ⟨x :: cs, p⟩ = ⟨x :: cs, p⟩ :=
  skipWhile_of_stop (by simpa using h) p

/-- Behind blanks there are no more blanks. -/
theorem skipBlanks_skipBlanks (c : Cursor) : c.skipBlanks.skipBlanks = c.skipBlanks := by
  obtain ⟨cs, p⟩ := c
  induction cs generalizing p with
  | nil => rfl
  | cons x cs ih =>
    simp only [skipBlanks, skipWhile]
    split
    · exact ih _
    · next h => rw [skipWhile, if_neg h]

end Cursor

open Cursor

/-! ### Strings -/

theorem hexValue_char (d : HexDigit) : hexValue d.char = some d.value.val := by
  have every : ∀ (v : Fin 16) (u : Bool), hexValue (HexDigit.char ⟨v, u⟩) = some v.val := by decide
  exact every d.value d.isUpper

theorem readHex_digits (u : CodeUnit) (rest : List Char) (p : Position) :
    readHex ⟨u.digits ++ rest, p⟩ = .ok (u.code, ⟨rest, p.after u.digits⟩) := by
  simp only [readHex, CodeUnit.digits, List.cons_append, hexValue_char]
  rfl

theorem letterEscape_of_mem {x y : Char} (h : (x, y) ∈ escapes) : letterEscape x = some y := by
  have every : ∀ e ∈ escapes, letterEscape e.1 = some e.2 := by decide
  exact every (x, y) h

theorem skipEscape_letter {x y : Char} (h : (x, y) ∈ escapes) (rest : List Char) (p : Position) :
    skipEscape ⟨x :: rest, p⟩ = .ok ⟨rest, p.step x⟩ := by
  simp [skipEscape, letterEscape_of_mem h]

theorem skipEscape_unit (u : CodeUnit) (rest : List Char) (p : Position) :
    skipEscape ⟨'u' :: (u.digits ++ rest), p⟩ = .ok ⟨rest, (p.step 'u').after u.digits⟩ := by
  have hu : letterEscape 'u' = none := by decide
  simp [skipEscape, hu, readHex_digits, bind, Except.bind, pure, Except.pure]

/-- One piece takes one step. -/
theorem skipChars_piece (x : Piece) (fuel : Nat) (rest : List Char) (p : Position) :
    skipChars (fuel + 1) ⟨x.text ++ rest, p⟩ = skipChars fuel ⟨rest, p.after x.text⟩ := by
  cases x with
  | plain x allowed =>
    obtain ⟨quote, backslash, printable⟩ := allowed
    simp [Piece.text, skipChars, quote, backslash, Nat.not_lt.2 printable]
  | letter x y listed =>
    simp [Piece.text, skipChars, skipEscape_letter listed, bind, Except.bind]
  | unit u =>
    simp [Piece.text, skipChars, skipEscape_unit, bind, Except.bind]

theorem Piece.text_length_pos (x : Piece) : 0 < x.text.length := by
  cases x <;> simp [text]

theorem Piece.length_le_text (pieces : List Piece) :
    pieces.length ≤ (pieces.flatMap Piece.text).length := by
  induction pieces with
  | nil => simp
  | cons x rest ih =>
    have := x.text_length_pos
    simp only [List.flatMap_cons, List.length_append, List.length_cons]
    omega

theorem skipChars_pieces (pieces : List Piece) (fuel : Nat) (rest : List Char) (p : Position) :
    skipChars (fuel + pieces.length + 1) ⟨pieces.flatMap Piece.text ++ '"' :: rest, p⟩ =
      .ok ⟨rest, (p.after (pieces.flatMap Piece.text)).step '"'⟩ := by
  induction pieces generalizing p with
  | nil => simp [skipChars]
  | cons x pieces ih =>
    simp only [List.flatMap_cons, List.append_assoc, List.length_cons, Position.after_append]
    exact (skipChars_piece x _ _ p).trans (ih _)

theorem skipString_pieces (pieces : List Piece) (rest : List Char) (p : Position) :
    skipString ⟨pieces.flatMap Piece.text ++ '"' :: rest, p⟩ =
      .ok ⟨rest, (p.after (pieces.flatMap Piece.text)).step '"'⟩ := by
  have hfuel : ∃ fuel, (pieces.flatMap Piece.text ++ '"' :: rest).length + 1 =
      fuel + pieces.length + 1 := by
    have := Piece.length_le_text pieces
    refine ⟨(pieces.flatMap Piece.text ++ '"' :: rest).length - pieces.length, ?_⟩
    simp only [List.length_append]
    omega
  obtain ⟨fuel, hfuel⟩ := hfuel
  rw [skipString, hfuel]
  exact skipChars_pieces pieces fuel rest p

/-! ### Numbers -/

/-- What follows does not continue a number. -/
def Delimited (rest : List Char) : Prop :=
  ∀ x ∈ rest.head?, x.isDigit = false ∧ x ≠ '.' ∧ x ≠ 'e' ∧ x ≠ 'E'

theorem Delimited.blanks {rest : List Char} (h : Delimited rest) (ws : Blanks) :
    Delimited (ws.chars ++ rest) := by
  intro x hx
  cases hws : ws.chars with
  | nil =>
    rw [hws] at hx
    exact h x hx
  | cons y ys =>
    obtain rfl : y = x := by simpa [hws] using hx
    have hy := ws.blank y (by simp [hws])
    simp only [List.mem_cons, List.not_mem_nil, or_false] at hy
    obtain rfl | rfl | rfl | rfl := hy <;> decide

theorem delimited_comma (rest : List Char) : Delimited (',' :: rest) := by
  intro x hx
  obtain rfl : ',' = x := by simpa using hx
  decide

theorem delimited_close (b : Bracket) (rest : List Char) : Delimited (b.close :: rest) := by
  intro x hx
  obtain rfl : b.close = x := by simpa using hx
  cases b <;> decide

theorem isDigit_digitChar (d : Fin 10) : (digitChar d).isDigit = true := by
  revert d
  decide

theorem digitChar_eq_zero {d : Fin 10} (h : digitChar d = '0') : d = 0 := by
  revert d
  decide

/-- What does not start with a digit. -/
def Undigited (rest : List Char) : Prop := ∀ x ∈ rest.head?, x.isDigit = false

theorem Numeral.isDigit_of_mem_text (n : Numeral) : ∀ x ∈ n.text, x.isDigit = true := by
  intro x hx
  have hmem : x ∈ (n.first :: n.more).map digitChar := hx
  obtain ⟨d, -, rfl⟩ := List.mem_map.1 hmem
  exact isDigit_digitChar d

theorem digits_numeral (n : Numeral) {rest : List Char} (h : Undigited rest) (p : Position) :
    (digits ⟨n.text ++ rest, p⟩).2 = ⟨rest, p.after n.text⟩ := by
  simp only [digits]
  rw [skipWhile_append n.isDigit_of_mem_text, skipWhile_of_stop h]

theorem any_peek_numeral (n : Numeral) (rest : List Char) (p : Position) :
    (peek ⟨n.text ++ rest, p⟩).any Char.isDigit = true := by
  simp [Numeral.text, isDigit_digitChar]

/-- A zero in front stands alone, so no digit follows it. -/
theorem any_peek_behind_zero {n : Numeral} (canonical : n.first = 0 → n.more = [])
    (hzero : digitChar n.first = '0') {rest : List Char} (h : Undigited rest) (p : Position) :
    (advance ⟨n.text ++ rest, p⟩).peek.any Char.isDigit = false := by
  have hmore := canonical (digitChar_eq_zero hzero)
  simp only [Numeral.text, hmore, List.map_nil, List.cons_append, List.nil_append, advance_cons]
  cases rest with
  | nil => rfl
  | cons x rest => exact h x rfl

theorem skipExponent_text (e : Exponent) {rest : List Char} (h : Undigited rest) (p : Position) :
    skipExponent ⟨e.text ++ rest, p⟩ = .ok ⟨rest, p.after e.text⟩ := by
  obtain ⟨isUpper, sign, numeral⟩ := e
  have digit := isDigit_digitChar numeral.first
  -- Without a sign the digits follow the mark, and their first is not taken for a sign.
  have plus : digitChar numeral.first ≠ '+' := by
    intro heq
    simp [heq] at digit
  have minus : digitChar numeral.first ≠ '-' := by
    intro heq
    simp [heq] at digit
  have hdigits := digits_numeral numeral h
  match sign with
  | some true => simp [skipExponent, Exponent.text, any_peek_numeral, hdigits]
  | some false => simp [skipExponent, Exponent.text, any_peek_numeral, hdigits]
  | none =>
    have := hdigits (p.step (if isUpper then 'E' else 'e'))
    simp only [Numeral.text, List.cons_append] at this
    simp [skipExponent, Exponent.text, Numeral.text, plus, minus, digit, this]

theorem head_exponentText {rest : List Char} (h : Delimited rest) (e : Option Exponent) :
    ∀ x ∈ (Figure.exponentText e ++ rest).head?, x.isDigit = false ∧ x ≠ '.' := by
  intro x hx
  cases e with
  | none => exact ⟨(h x hx).1, (h x hx).2.1⟩
  | some e =>
    obtain rfl : (if e.isUpper then 'E' else 'e') = x := by
      simpa [Figure.exponentText, Exponent.text] using hx
    split <;> decide

theorem skipScale_text (e : Option Exponent) {rest : List Char} (h : Delimited rest)
    (p : Position) : skipScale ⟨Figure.exponentText e ++ rest, p⟩ =
      .ok ⟨rest, p.after (Figure.exponentText e)⟩ := by
  cases e with
  | some e =>
    have hmark : skipScale ⟨e.text ++ rest, p⟩ = skipExponent ⟨e.text ++ rest, p⟩ := by
      obtain ⟨isUpper, sign, numeral⟩ := e
      cases isUpper <;> rfl
    exact hmark.trans (skipExponent_text e (fun x hx => (h x hx).1) p)
  | none =>
    cases rest with
    | nil => rfl
    | cons x rest =>
      obtain ⟨-, -, lower, upper⟩ := h x rfl
      simp [skipScale, Figure.exponentText, lower, upper]

/-- A number is passed over by its digits, its fraction and its exponent. -/
theorem skipNumber_text (f : Figure) {rest : List Char} (h : Delimited rest) (p : Position) :
    skipNumber ⟨f.unsignedText ++ rest, p⟩ = .ok ⟨rest, p.after f.unsignedText⟩ := by
  obtain ⟨isNegative, whole, canonical, fraction, exponent⟩ := f
  simp only [Figure.unsignedText, List.append_assoc, Position.after_append]
  have hscale := head_exponentText h exponent
  have hfraction : Undigited (Figure.fractionText fraction ++
      (Figure.exponentText exponent ++ rest)) := by
    cases fraction with
    | none => exact fun x hx => (hscale x hx).1
    | some n =>
      intro x hx
      obtain rfl : '.' = x := by simpa [Figure.fractionText] using hx
      decide
  have hzero : ((peek ⟨whole.text ++ (Figure.fractionText fraction ++
      (Figure.exponentText exponent ++ rest)), p⟩ == some '0') &&
      (advance ⟨whole.text ++ (Figure.fractionText fraction ++
        (Figure.exponentText exponent ++ rest)), p⟩).peek.any Char.isDigit) = false := by
    by_cases hfirst : digitChar whole.first = '0'
    · rw [any_peek_behind_zero canonical hfirst hfraction, Bool.and_false]
    · simp [Numeral.text, hfirst]
  rw [skipNumber, any_peek_numeral, hzero]
  simp only [Bool.not_true, Bool.false_eq_true, if_false, digits_numeral whole hfraction]
  cases fraction with
  | some n =>
    have hn := digits_numeral n (fun x hx => (hscale x hx).1)
    simp [Figure.fractionText, any_peek_numeral, hn, skipScale_text exponent h]
  | none =>
    have hpoint : peek ⟨Figure.exponentText exponent ++ rest, p.after whole.text⟩ ≠ some '.' :=
      fun hpeek => (hscale '.' hpeek).2 rfl
    simp only [Figure.fractionText, List.nil_append, Position.after_nil]
    exact skipScale_text exponent h _

/-! ### Values without parts -/

theorem skipScalar_of_digit {x : Char} (hx : x.isDigit = true) (cs : List Char) (p : Position) :
    skipScalar ⟨x :: cs, p⟩ = skipNumber ⟨x :: cs, p⟩ := by
  simp only [skipScalar, peek_cons]
  split
  all_goals simp_all

theorem skipScalar_figure (f : Figure) {rest : List Char} (h : Delimited rest) (p : Position) :
    skipScalar ⟨f.text ++ rest, p⟩ = .ok ⟨rest, p.after f.text⟩ := by
  rw [Figure.text]
  split
  · exact skipNumber_text f h (p.step '-')
  · exact (skipScalar_of_digit (isDigit_digitChar f.whole.first) _ p).trans (skipNumber_text f h p)

theorem skipScalar_quoted (pieces : List Piece) (rest : List Char) (p : Position) :
    skipScalar ⟨quotedText pieces ++ rest, p⟩ = .ok ⟨rest, p.after (quotedText pieces)⟩ := by
  have := skipString_pieces pieces rest (p.step '"')
  simpa [skipScalar, quotedText] using this

/-! ### Values with parts -/

/-- What is left to do behind a value inside the given brackets. -/
def resume (fuel : Nat) : List Bracket → Cursor → Except Fault Cursor
  | [], c => .ok c
  | b :: outer, c => skipRestFrom fuel b outer false c

/-- Passes over an item of a bracket, and then to the end of the outermost one. -/
def skipItem (b : Bracket) (fuel : Nat) (outer : List Bracket) (c : Cursor) : Except Fault Cursor :=
  (if b = .object then skipKey c else pure c) >>= skipValueFrom fuel (b :: outer)

@[simp] theorem skipValueFrom_blanks (fuel : Nat) (stack : List Bracket) (ws : Blanks)
    (cs : List Char) (p : Position) : skipValueFrom (fuel + 1) stack ⟨ws.chars ++ cs, p⟩ =
      skipValueFrom (fuel + 1) stack ⟨cs, p.after ws.chars⟩ := by
  simp only [skipValueFrom, skipBlanks_append]

@[simp] theorem skipRestFrom_blanks (fuel : Nat) (b : Bracket) (outer : List Bracket) (opened : Bool)
    (ws : Blanks) (cs : List Char) (p : Position) :
    skipRestFrom (fuel + 1) b outer opened ⟨ws.chars ++ cs, p⟩ =
      skipRestFrom (fuel + 1) b outer opened ⟨cs, p.after ws.chars⟩ := by
  simp only [skipRestFrom, skipBlanks_append]

theorem skipRestFrom_close (fuel : Nat) (b : Bracket) (outer : List Bracket) (opened : Bool)
    (cs : List Char) (p : Position) :
    skipRestFrom (fuel + 1) b outer opened ⟨b.close :: cs, p⟩ =
      resume fuel outer ⟨cs, p.step b.close⟩ := by
  have hblank : isBlank b.close = false := by cases b <;> decide
  simp only [skipRestFrom, skipBlanks_cons hblank, peek_cons, if_true, advance_cons]
  cases outer <;> rfl

theorem skipRestFrom_comma (fuel : Nat) (b : Bracket) (outer : List Bracket) (cs : List Char)
    (p : Position) : skipRestFrom (fuel + 1) b outer false ⟨',' :: cs, p⟩ =
      skipItem b fuel outer ⟨cs, p.step ','⟩ := by
  have hclose : ',' ≠ b.close := by cases b <;> decide
  have hblank : isBlank ',' = false := by decide
  simp only [skipRestFrom, skipBlanks_cons hblank, peek_cons, if_neg hclose]
  cases b <;> rfl

/-- Blanks in front of an item are passed over together with it. -/
theorem skipItem_skipBlanks (b : Bracket) (fuel : Nat) (outer : List Bracket) (c : Cursor) :
    skipItem b (fuel + 1) outer c.skipBlanks = skipItem b (fuel + 1) outer c := by
  cases b with
  | list =>
    change skipValueFrom (fuel + 1) _ c.skipBlanks = skipValueFrom (fuel + 1) _ c
    simp only [skipValueFrom, skipBlanks_skipBlanks]
  | object =>
    change skipKey c.skipBlanks >>= _ = skipKey c >>= _
    simp only [skipKey, skipBlanks_skipBlanks]

theorem skipRestFrom_opened {b : Bracket} {c : Cursor} {x : Char}
    (hpeek : c.skipBlanks.peek = some x) (hclose : x ≠ b.close) (fuel : Nat)
    (outer : List Bracket) :
    skipRestFrom (fuel + 2) b outer true c = skipItem b (fuel + 1) outer c := by
  rw [← skipItem_skipBlanks]
  simp only [skipRestFrom, hpeek, if_neg hclose]
  cases b <;> rfl

/-- A text is passed over as a value, inside any brackets, in at most two steps for each
character. -/
def Passes (text : List Char) : Prop :=
  ∃ steps, steps + 1 ≤ 2 * text.length ∧
    ∀ fuel stack rest p, Delimited rest →
      skipValueFrom (fuel + steps + 1) stack ⟨text ++ rest, p⟩ =
        resume fuel stack ⟨rest, p.after text⟩

/-- A text is passed over as an item of a bracket, which it does not close. -/
def PassesIn (b : Bracket) (text : List Char) : Prop :=
  (∀ rest p, ∃ x, (skipBlanks ⟨text ++ rest, p⟩).peek = some x ∧ x ≠ b.close) ∧
  ∃ steps, steps + 1 ≤ 2 * text.length ∧
    ∀ fuel outer rest p, Delimited rest →
      skipItem b (fuel + 1 + steps + 1) outer ⟨text ++ rest, p⟩ =
        skipRestFrom (fuel + 1) b outer false ⟨rest, p.after text⟩

theorem passes_of_skipScalar {x : Char} {cs : List Char} (hblank : isBlank x = false)
    (hlist : x ≠ '[') (hobject : x ≠ '{')
    (h : ∀ rest p, Delimited rest →
      skipScalar ⟨x :: cs ++ rest, p⟩ = .ok ⟨rest, p.after (x :: cs)⟩) : Passes (x :: cs) := by
  refine ⟨0, by simp only [List.length_cons]; omega, fun fuel stack rest p hrest => ?_⟩
  have hscalar := h rest p hrest
  simp only [List.cons_append] at hscalar
  simp only [List.cons_append, skipValueFrom, skipBlanks_cons hblank, peek_cons]
  split
  · next heq => exact absurd (Option.some.inj heq) hlist
  · next heq => exact absurd (Option.some.inj heq) hobject
  · rw [hscalar]
    cases stack <;> rfl

/-- Items with commas between them are passed over up to the closing character. -/
theorem skipItem_commas {b : Bracket} {text : List Char} {texts : List (List Char)}
    (h : ∀ t ∈ text :: texts, PassesIn b t) :
    ∃ steps, steps ≤ 2 * (commas (text :: texts)).length ∧
      ∀ fuel outer rest p,
        skipItem b (fuel + steps + 1) outer ⟨commas (text :: texts) ++ b.close :: rest, p⟩ =
          resume fuel outer ⟨rest, (p.after (commas (text :: texts))).step b.close⟩ := by
  induction texts generalizing text with
  | nil =>
    obtain ⟨-, steps, hsteps, hpass⟩ := h text (by simp)
    refine ⟨steps + 1, hsteps, fun fuel outer rest p => ?_⟩
    have := hpass fuel outer (b.close :: rest) p (delimited_close b rest)
    rw [skipRestFrom_close] at this
    simp only [commas, ← this]
    congr 1
    omega
  | cons next texts ih =>
    obtain ⟨-, steps, hsteps, hpass⟩ := h text (by simp)
    obtain ⟨more, hmore, hrest⟩ := ih fun t ht => h t (List.mem_cons_of_mem _ ht)
    refine ⟨more + 1 + (steps + 1), ?_, fun fuel outer rest p => ?_⟩
    · simp only [commas, List.length_append, List.length_cons] at hmore ⊢
      omega
    · have hfirst := hpass (fuel + more + 1) outer
        (',' :: (commas (next :: texts) ++ b.close :: rest)) p (delimited_comma _)
      rw [skipRestFrom_comma, hrest] at hfirst
      simp only [commas, List.append_assoc, List.cons_append, Position.after_append,
        Position.after_cons]
      rw [← hfirst]
      congr 1
      omega

/-- The opening character. -/
def Bracket.start : Bracket → Char
  | .list => '['
  | .object => '{'

theorem skipValueFrom_start (fuel : Nat) (b : Bracket) (stack : List Bracket) (cs : List Char)
    (p : Position) : skipValueFrom (fuel + 1) stack ⟨b.start :: cs, p⟩ =
      skipRestFrom fuel b stack true ⟨cs, p.step b.start⟩ := by
  cases b <;> rfl

/-- A bracket is passed over with its items. -/
theorem passes_bracket (b : Bracket) (inside : Blanks) {texts : List (List Char)}
    (h : ∀ t ∈ texts, PassesIn b t) :
    Passes (b.start :: (inside.chars ++ (commas texts ++ [b.close]))) := by
  cases texts with
  | nil =>
    refine ⟨1, ?_, fun fuel stack rest p _ => ?_⟩
    · simp only [List.length_cons, List.length_append, List.length_nil]
      omega
    · simp only [List.cons_append, List.append_assoc, commas, List.nil_append, skipValueFrom_start,
        skipRestFrom_blanks, skipRestFrom_close, Position.after_cons, Position.after_append,
        Position.after_nil]
  | cons text texts =>
    obtain ⟨steps, hsteps, hitems⟩ := skipItem_commas h
    refine ⟨steps + 2, ?_, fun fuel stack rest p _ => ?_⟩
    · simp only [List.length_cons, List.length_append, List.length_nil]
      omega
    · obtain ⟨hhead, -⟩ := h text (by simp)
      have hstart : ∃ x, (skipBlanks ⟨commas (text :: texts) ++ b.close :: rest,
          (p.step b.start).after inside.chars⟩).peek = some x ∧ x ≠ b.close := by
        cases texts with
        | nil => exact hhead _ _
        | cons next texts =>
          simp only [commas, List.append_assoc]
          exact hhead _ _
      obtain ⟨x, hpeek, hclose⟩ := hstart
      simp only [List.cons_append, List.append_assoc, List.nil_append, ← Nat.add_assoc,
        skipValueFrom_start, skipRestFrom_blanks, skipRestFrom_opened hpeek hclose, hitems,
        Position.after_cons, Position.after_append, Position.after_nil]

/-- A value starts with a character that is no blank and closes no list. -/
theorem Tree.text_head (t : Tree) :
    ∃ x cs, t.text = x :: cs ∧ isBlank x = false ∧ x ≠ ']' := by
  cases t with
  | null => exact ⟨_, _, rfl, by decide, by decide⟩
  | boolean b => cases b <;> exact ⟨_, _, rfl, by decide, by decide⟩
  | number f =>
    have digit : ∀ d, isBlank (digitChar d) = false ∧ digitChar d ≠ ']' := by decide
    rw [Tree.text, Figure.text]
    split
    · exact ⟨_, _, rfl, by decide, by decide⟩
    · exact ⟨_, _, rfl, digit _⟩
  | string pieces => exact ⟨_, _, rfl, by decide, by decide⟩
  | list inside items => exact ⟨_, _, rfl, by decide, by decide⟩
  | object inside entries => exact ⟨_, _, rfl, by decide, by decide⟩

theorem passesIn_item {x : Item Tree} (h : Passes x.value.text) : PassesIn .list x.text := by
  obtain ⟨steps, hsteps, hpass⟩ := h
  refine ⟨fun rest p => ?_, steps, ?_, fun fuel outer rest p hrest => ?_⟩
  · obtain ⟨y, cs, hy, hblank, hclose⟩ := x.value.text_head
    simp only [Item.text, hy, List.append_assoc, List.cons_append, skipBlanks_append,
      skipBlanks_cons hblank]
    exact ⟨y, rfl, hclose⟩
  · simp only [Item.text, List.length_append]
    omega
  · change skipValueFrom (fuel + 1 + steps + 1) (.list :: outer) _ = _
    simp only [Item.text, List.append_assoc, skipValueFrom_blanks,
      hpass (fuel + 1) _ _ _ (hrest.blanks x.after), resume, skipRestFrom_blanks,
      Position.after_append]

theorem skipKey_text (e : Entry Tree) (cs : List Char) (p : Position) :
    skipKey ⟨e.before.chars ++ (quotedText e.key ++ (e.aside.chars ++ ':' :: cs)), p⟩ =
      .ok ⟨cs, (((p.after e.before.chars).after (quotedText e.key)).after e.aside.chars).step ':'⟩ := by
  have quote : isBlank '"' = false := by decide
  have colon : isBlank ':' = false := by decide
  simp only [skipKey, quotedText, skipBlanks_append, List.cons_append, List.append_assoc,
    skipBlanks_cons quote, peek_cons, advance_cons, List.nil_append]
  rw [skipString_pieces]
  simp [bind, Except.bind, pure, Except.pure, skipBlanks_cons colon]

theorem passesIn_entry {e : Entry Tree} (h : Passes e.value.text) : PassesIn .object e.text := by
  obtain ⟨steps, hsteps, hpass⟩ := h
  refine ⟨fun rest p => ?_, steps, ?_, fun fuel outer rest p hrest => ?_⟩
  · have quote : isBlank '"' = false := by decide
    simp only [Entry.text, quotedText, List.append_assoc, List.cons_append, skipBlanks_append,
      skipBlanks_cons quote]
    exact ⟨'"', rfl, by decide⟩
  · simp only [Entry.text, List.length_append, List.length_cons]
    omega
  · change skipKey _ >>= skipValueFrom (fuel + 1 + steps + 1) (.object :: outer) = _
    simp only [Entry.text, List.append_assoc, List.cons_append, skipKey_text]
    change skipValueFrom (fuel + 1 + steps + 1) (.object :: outer) _ = _
    simp only [skipValueFrom_blanks, hpass (fuel + 1) _ _ _ (hrest.blanks e.after), resume,
      skipRestFrom_blanks, Position.after_append, Position.after_cons]

/-- Every value is passed over. -/
theorem passes_text (t : Tree) : Passes t.text := by
  induction t with
  | null => exact passes_of_skipScalar (by decide) (by decide) (by decide) fun rest p _ => rfl
  | boolean b =>
    cases b <;> exact passes_of_skipScalar (by decide) (by decide) (by decide) fun rest p _ => rfl
  | number f =>
    obtain ⟨x, cs, htext, hblank, -⟩ := (Tree.number f).text_head
    have hfigure : f.text = x :: cs := htext
    have hhead : x ≠ '[' ∧ x ≠ '{' := by
      have digit : ∀ d, digitChar d ≠ '[' ∧ digitChar d ≠ '{' := by decide
      rw [Figure.text] at hfigure
      split at hfigure
      · obtain rfl := (List.cons.inj hfigure).1
        decide
      · obtain rfl := (List.cons.inj hfigure).1
        exact digit _
    rw [htext]
    refine passes_of_skipScalar hblank hhead.1 hhead.2 fun rest p hrest => ?_
    rw [← hfigure]
    exact skipScalar_figure f hrest p
  | string pieces =>
    exact passes_of_skipScalar (by decide) (by decide) (by decide) fun rest p _ =>
      skipScalar_quoted pieces rest p
  | list inside items ih =>
    rw [Tree.text, itemTexts_eq]
    refine passes_bracket .list inside fun text htext => ?_
    obtain ⟨x, hx, rfl⟩ := List.mem_map.1 htext
    exact passesIn_item (ih x hx)
  | object inside entries ih =>
    rw [Tree.text, entryTexts_eq]
    refine passes_bracket .object inside fun text htext => ?_
    obtain ⟨e, he, rfl⟩ := List.mem_map.1 htext
    exact passesIn_entry (ih e he)

/-- A value is passed over up to its end, whatever its depth. -/
theorem skipValue_text (t : Tree) (ws : Blanks) {rest : List Char} (h : Delimited rest)
    (p : Position) : skipValue ⟨ws.chars ++ (t.text ++ rest), p⟩ =
      .ok ⟨rest, (p.after ws.chars).after t.text⟩ := by
  obtain ⟨steps, hsteps, hpass⟩ := passes_text t
  have hfuel : ∃ fuel, 2 * (ws.chars ++ (t.text ++ rest)).length + 2 = fuel + steps + 1 := by
    refine ⟨2 * (ws.chars ++ (t.text ++ rest)).length + 1 - steps, ?_⟩
    simp only [List.length_append]
    omega
  obtain ⟨fuel, hfuel⟩ := hfuel
  rw [skipValue, hfuel, skipValueFrom_blanks, hpass fuel [] rest _ h]
  rfl

end EntitySchema.Json
