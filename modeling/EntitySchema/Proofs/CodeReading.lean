import EntitySchema.Code.Declaration
import Mathlib

/-!
# Reading code back

Code is read by its brackets and dividers alone: it is cut where a divider stands in no bracket, a
match is read as a list of arms, and a function is found by the name behind `fn`. Nothing here looks
at how the code was put together.

## Implementation notes

`Phrase` is code that no reader cuts: its brackets match and no divider stands outside them. What is
between brackets only has to be `Balanced`. The functions that put code together make phrases out of
these, so that a piece of code is a phrase by the way it was put together.
-/

namespace EntitySchema.Code

/-! ## Readers -/

/-- The tokens that open a bracket. -/
def openings : List Token := [.word "(", .word "[", .word "\x7b"]

/-- The tokens that close a bracket. -/
def closings : List Token := [Token.word ")", Token.word "]", Token.word "\x7d"]

/-- The tokens that code is cut at. -/
def dividers : List Token := [Token.word ",", Token.word ";", Token.word "=>", Token.word "fn"]

/-- The depth of nesting after a token. -/
def deepen (depth : Nat) (t : Token) : Nat :=
  if t ∈ openings then depth + 1 else if t ∈ closings then depth - 1 else depth

/-- The pieces of code between the occurrences of a divider outside all brackets. -/
def pieces (divider : Token) (depth : Nat) : Code → List Code
  | [] => [[]]
  | t :: rest =>
    if depth = 0 ∧ t = divider then [] :: pieces divider 0 rest
    else (pieces divider (deepen depth t) rest).modifyHead (t :: ·)

/-- The code up to the bracket that closes what is open at depth zero. -/
def inside (depth : Nat) : Code → Code
  | [] => []
  | t :: rest => if depth = 0 ∧ t ∈ closings then [] else t :: inside (deepen depth t) rest

/-- The code in the first braces. -/
def firstBraces : Code → Code
  | [] => []
  | t :: rest => if t = Token.word "\x7b" then inside 0 rest else firstBraces rest

/-- The pattern and the result of a match arm. -/
def arm? (c : Code) : Option (Code × Code) :=
  match pieces (.word "=>") 0 c with
  | [pattern, result] => some (pattern, result)
  | _ => none

/-- The arms of a match. -/
def matchArms (c : Code) : List (Code × Code) :=
  (pieces (.word ",") 0 (firstBraces c)).filterMap arm?

/-- The body of the function with a name among functions. -/
def functionBody? (name : String) (c : Code) : Option Code :=
  ((pieces (.word "fn") 0 c).tail.find? fun p => p.head? = some (.word name)).map firstBraces

/-- The statements of a body. -/
def statements (c : Code) : List Code := (pieces (.word ";") 0 c).filter fun p => p ≠ []

/-! ## Code that no reader cuts -/

/-- The token is neither a bracket nor a divider. -/
def Token.isPlain (t : Token) : Bool := t ∉ openings ++ closings ++ dividers

/-- Code whose brackets match. -/
inductive Balanced : Code → Prop
  | nil : Balanced []
  | token {t : Token} : t ∉ openings → t ∉ closings → Balanced [t]
  | append {a b : Code} : Balanced a → Balanced b → Balanced (a ++ b)
  | group {opening closing : Token} {c : Code} : opening ∈ openings → closing ∈ closings →
      Balanced c → Balanced (opening :: (c ++ [closing]))

/-- Code whose brackets match, with no divider outside them. -/
inductive Phrase : Code → Prop
  | nil : Phrase []
  | token {t : Token} : t.isPlain = true → Phrase [t]
  | append {a b : Code} : Phrase a → Phrase b → Phrase (a ++ b)
  | group {opening closing : Token} {c : Code} : opening ∈ openings → closing ∈ closings →
      Balanced c → Phrase (opening :: (c ++ [closing]))

theorem Token.isPlain_iff {t : Token} :
    t.isPlain = true ↔ t ∉ openings ∧ t ∉ closings ∧ t ∉ dividers := by
  simp [Token.isPlain]

theorem Phrase.balanced {c : Code} (h : Phrase c) : Balanced c := by
  induction h with
  | nil => exact .nil
  | token ht => exact .token (Token.isPlain_iff.mp ht).1 (Token.isPlain_iff.mp ht).2.1
  | append _ _ iha ihb => exact .append iha ihb
  | group hopen hclose hc => exact .group hopen hclose hc

theorem notMem_closings_of_opening : ∀ t ∈ openings, t ∉ closings := by decide

theorem notMem_openings_of_closing : ∀ t ∈ closings, t ∉ openings := by decide

theorem notMem_dividers_of_opening : ∀ t ∈ openings, t ∉ dividers := by decide

section Cutting

variable {c : Code} {divider t : Token} {depth : Nat}

theorem deepen_of_opening (h : t ∈ openings) : deepen depth t = depth + 1 := if_pos h

theorem deepen_of_closing (h : t ∈ closings) : deepen (depth + 1) t = depth := by
  rw [deepen, if_neg (notMem_openings_of_closing t h), if_pos h, Nat.add_sub_cancel]

theorem deepen_of_plain (hopen : t ∉ openings) (hclose : t ∉ closings) :
    deepen depth t = depth := by
  rw [deepen, if_neg hopen, if_neg hclose]

theorem pieces_cons (h : ¬(depth = 0 ∧ t = divider)) (rest : Code) :
    pieces divider depth (t :: rest) =
      (pieces divider (deepen depth t) rest).modifyHead (t :: ·) := if_neg h

theorem pieces_divider (rest : Code) :
    pieces divider 0 (divider :: rest) = [] :: pieces divider 0 rest := if_pos ⟨rfl, rfl⟩

/-- Within brackets nothing is cut. -/
theorem Balanced.pieces_append (h : Balanced c) (divider : Token) (depth : Nat) (rest : Code) :
    pieces divider (depth + 1) (c ++ rest) =
      (pieces divider (depth + 1) rest).modifyHead (c ++ ·) := by
  induction h generalizing depth rest with
  | nil => exact (congrFun List.modifyHead_id _).symm
  | token hopen hclose =>
      rw [List.singleton_append, pieces_cons (by omega), deepen_of_plain hopen hclose]
      rfl
  | append _ _ iha ihb =>
      rw [List.append_assoc, iha, ihb, List.modifyHead_modifyHead]
      simp [Function.comp_def]
  | group hopen hclose _ ih =>
      rw [List.cons_append, List.append_assoc, pieces_cons (by omega), deepen_of_opening hopen, ih,
        List.singleton_append, pieces_cons (by omega), deepen_of_closing hclose]
      simp [Function.comp_def]

/-- A phrase goes into one piece with what follows it. -/
theorem Phrase.pieces_append (h : Phrase c) (hdivider : divider ∈ dividers) (rest : Code) :
    pieces divider 0 (c ++ rest) = (pieces divider 0 rest).modifyHead (c ++ ·) := by
  induction h generalizing rest with
  | nil => exact (congrFun List.modifyHead_id _).symm
  | @token t ht =>
      obtain ⟨hopen, hclose, hplain⟩ := Token.isPlain_iff.mp ht
      have hne : ¬(0 = 0 ∧ t = divider) := fun h => hplain (h.2 ▸ hdivider)
      rw [List.singleton_append, pieces_cons hne, deepen_of_plain hopen hclose]
      rfl
  | append _ _ iha ihb =>
      rw [List.append_assoc, iha, ihb, List.modifyHead_modifyHead]
      simp [Function.comp_def]
  | @group opening closing c hopen hclose hc =>
      have hne : ¬(0 = 0 ∧ opening = divider) := fun h =>
        notMem_dividers_of_opening opening hopen (h.2 ▸ hdivider)
      rw [List.cons_append, List.append_assoc, pieces_cons hne, deepen_of_opening hopen,
        hc.pieces_append, List.singleton_append, pieces_cons (by omega), deepen_of_closing hclose]
      simp [Function.comp_def]

theorem Phrase.pieces_eq (h : Phrase c) (hdivider : divider ∈ dividers) :
    pieces divider 0 c = [c] := by
  have hpieces := h.pieces_append hdivider []
  simpa [pieces] using hpieces

/-- A phrase in front of a divider is a piece of its own. -/
theorem Phrase.pieces_divider (h : Phrase c) (hdivider : divider ∈ dividers) (rest : Code) :
    pieces divider 0 (c ++ divider :: rest) = c :: pieces divider 0 rest := by
  rw [h.pieces_append hdivider, Code.pieces_divider, List.modifyHead_cons, List.append_nil]

/-- What is closed within code does not end it. -/
theorem Balanced.inside_append (h : Balanced c) (depth : Nat) (rest : Code) :
    inside depth (c ++ rest) = c ++ inside depth rest := by
  induction h generalizing depth rest with
  | nil => rfl
  | token hopen hclose =>
      rw [List.singleton_append, inside, if_neg (fun h => hclose h.2), deepen_of_plain hopen hclose]
      rfl
  | append _ _ iha ihb => rw [List.append_assoc, iha, ihb, List.append_assoc]
  | @group opening closing c hopen hclose _ ih =>
      rw [List.cons_append, List.append_assoc, inside,
        if_neg (fun h => notMem_closings_of_opening opening hopen h.2), deepen_of_opening hopen, ih,
        List.singleton_append, inside, if_neg (by omega), deepen_of_closing hclose]
      simp

end Cutting

/-! ## Phrases -/

section Phrases

variable {a b c : Code} {t : Token}

theorem parens_eq (c : Code) : parens c = Token.word "(" :: (c ++ [Token.word ")"]) := by
  rw [parens, show words "(" = [Token.word "("] from rfl,
    show words ")" = [Token.word ")"] from rfl]
  rfl

theorem braces_eq (c : Code) : braces c = Token.word "\x7b" :: (c ++ [Token.word "\x7d"]) := by
  rw [braces, show words "\x7b" = [Token.word "\x7b"] from rfl,
    show words "\x7d" = [Token.word "\x7d"] from rfl]
  rfl

theorem Phrase.parens (h : Balanced c) : Phrase (parens c) := by
  rw [parens_eq]
  exact .group (by decide) (by decide) h

theorem Phrase.braces (h : Balanced c) : Phrase (braces c) := by
  rw [braces_eq]
  exact .group (by decide) (by decide) h

theorem Phrase.cons (ht : t.isPlain = true) (h : Phrase c) : Phrase (t :: c) :=
  .append (.token ht) h

theorem Balanced.cons (hopen : t ∉ openings) (hclose : t ∉ closings) (h : Balanced c) :
    Balanced (t :: c) := .append (.token hopen hclose) h

theorem Balanced.flatMap {α : Type} {xs : List α} {f : α → Code}
    (h : ∀ x ∈ xs, Balanced (f x)) : Balanced (xs.flatMap f) := by
  induction xs with
  | nil => exact .nil
  | cons x rest ih =>
      rw [List.flatMap_cons]
      exact (h x List.mem_cons_self).append (ih fun y hy => h y (List.mem_cons_of_mem x hy))

theorem Balanced.commaSeparated {parts : List Code} (h : ∀ c ∈ parts, Balanced c) :
    Balanced (Code.commaSeparated parts) := by
  induction parts with
  | nil => exact .nil
  | cons c rest ih =>
      have hrest := ih fun d hd => h d (List.mem_cons_of_mem c hd)
      have hcomma : Balanced (words ",") := .token (by decide) (by decide)
      cases rest with
      | nil => exact h c List.mem_cons_self
      | cons d rest => exact ((h c List.mem_cons_self).append hcomma).append hrest

theorem Phrase.call {f : Code} {arguments : List Code} (hf : Phrase f)
    (h : ∀ c ∈ arguments, Balanced c) : Phrase (call f arguments) :=
  hf.append (.parens (.commaSeparated h))

theorem phrase_of_forall (h : ∀ t ∈ c, t.isPlain = true) : Phrase c := by
  induction c with
  | nil => exact .nil
  | cons t rest ih =>
      rw [List.forall_mem_cons] at h
      exact .cons h.1 (ih h.2)

/-- The brackets and dividers as they are spelled. -/
def marks : List (List Char) :=
  [['('], ['['], ['\x7b'], [')'], [']'], ['\x7d'], [','], [';'], ['=', '>'], ['f', 'n']]

theorem isPlain_ofList {w : List Char} (h : w ∉ marks) :
    (Token.word (String.ofList w)).isPlain = true := by
  have hmarks : openings ++ closings ++ dividers = marks.map fun w => .word (String.ofList w) := rfl
  rw [Token.isPlain, decide_eq_true_eq, hmarks, List.mem_map]
  rintro ⟨v, hv, heq⟩
  exact h (String.ofList_injective (Token.word.inj heq) ▸ hv)

/-- A text without brackets and dividers is a phrase. -/
-- the words are compared as lists of characters, which evaluate faster than strings
theorem phrase_words {cs : List Char} (h : ∀ w ∈ Text.divide ' ' cs, w ∉ marks) :
    Phrase (words (String.ofList cs)) := by
  rw [words, String.toList_ofList]
  refine phrase_of_forall fun t ht => ?_
  obtain ⟨w, hw, rfl⟩ := List.mem_map.mp ht
  exact isPlain_ofList (h w hw)

theorem phrase_words_append {as bs : List Char} (h : ∀ w ∈ Text.divide ' ' (as ++ bs), w ∉ marks) :
    Phrase (words (String.ofList as ++ String.ofList bs)) := by
  rw [← String.ofList_append]
  exact phrase_words h

theorem Phrase.angles (h : Phrase c) : Phrase (angles c) :=
  ((phrase_words (by decide)).append h).append (phrase_words (by decide))

theorem phrase_someOf (h : Balanced c) : Phrase (someOf c) :=
  .call (phrase_words (by decide)) (by simpa using h)

theorem phrase_noneOf : Phrase noneOf := phrase_words (by decide)

theorem phrase_okOf (h : Balanced c) : Phrase (okOf c) :=
  .call (phrase_words (by decide)) (by simpa using h)

theorem phrase_errOf (h : Balanced c) : Phrase (errOf c) :=
  .call (phrase_words (by decide)) (by simpa using h)

theorem phrase_traitFunction {type trait : Code} {name : String} (htype : Phrase type)
    (htrait : Phrase trait) (hname : Phrase (words name)) :
    Phrase (traitFunction type trait name) := by
  have hqualified : Phrase (type ++ words "as" ++ trait) :=
    (htype.append (phrase_words (by decide))).append htrait
  exact (hqualified.angles.append (phrase_words (by decide))).append hname

theorem isDigit_of_mem_toString {n : Nat} {x : Char} (h : x ∈ (toString n).toList) :
    x.isDigit = true := by
  rw [Nat.toString_eq_repr, Nat.toList_repr] at h
  exact Nat.isDigit_of_mem_toDigits (by decide) (by decide) h

theorem exists_toString_eq (n : Nat) :
    ∃ x rest, (toString n).toList = x :: rest ∧ x.isDigit = true := by
  obtain ⟨x, rest, hdigits⟩ := List.exists_cons_of_ne_nil (Nat.toDigits_ne_nil (n := n) (b := 10))
  have htext : (toString n).toList = x :: rest := by
    rw [Nat.toString_eq_repr, Nat.toList_repr, hdigits]
  exact ⟨x, rest, htext, isDigit_of_mem_toString (htext ▸ List.mem_cons_self)⟩

/-- A word that begins with another character is neither a bracket nor a divider. -/
theorem isPlain_word {text : String} {x : Char} {rest : List Char} (htext : text.toList = x :: rest)
    (hx : ∀ w ∈ marks, w.head? ≠ some x) : (Token.word text).isPlain = true := by
  rw [← String.ofList_toList (s := text), htext]
  exact isPlain_ofList fun hmem => hx _ hmem rfl

theorem head?_marks_of_isDigit {x : Char} (hx : x.isDigit = true) :
    ∀ w ∈ marks, w.head? ≠ some x := by
  have hmarks : ∀ w ∈ marks, w.head?.any Char.isDigit = false := by decide
  intro w hw hhead
  have hdigit := hmarks w hw
  rw [hhead, Option.any_some, hx] at hdigit
  cases hdigit

theorem isPlain_number (n : UInt32) : (number n).isPlain = true := by
  obtain ⟨x, rest, htext, hx⟩ := exists_toString_eq n.toNat
  exact isPlain_word htext (head?_marks_of_isDigit hx)

theorem isPlain_sizeNumber (n : Nat) : (sizeNumber n).isPlain = true := by
  obtain ⟨x, rest, htext, hx⟩ := exists_toString_eq n
  have hsized : (toString n ++ "usize").toList = x :: (rest ++ "usize".toList) := by
    rw [String.toList_append, htext, List.cons_append]
  exact isPlain_word hsized (head?_marks_of_isDigit hx)

theorem isPlain_item (package : List String) (name : String) :
    (Token.item package name).isPlain = true := by
  simp [Token.isPlain, openings, closings, dividers]

theorem isPlain_runtime (name : String) : (Token.runtime name).isPlain = true := by
  simp [Token.isPlain, openings, closings, dividers]

end Phrases

/-! ## Reading what was put together -/

section Reading

variable {c : Code} {divider t : Token}

theorem pieces_ne_nil (divider : Token) (depth : Nat) (c : Code) : pieces divider depth c ≠ [] := by
  induction c generalizing depth with
  | nil => simp [pieces]
  | cons t rest ih =>
      rw [pieces]
      split_ifs
      · simp
      · simpa [List.modifyHead_eq_nil_iff] using ih _

/-- A divider other than the one that is looked for does not cut. -/
theorem pieces_other (ht : t ∈ dividers) (hne : t ≠ divider) (rest : Code) :
    pieces divider 0 (t :: rest) = (pieces divider 0 rest).modifyHead (t :: ·) := by
  have hplain : ∀ t ∈ dividers, t ∉ openings ∧ t ∉ closings := by decide
  rw [pieces_cons (fun h => hne h.2), deepen_of_plain (hplain t ht).1 (hplain t ht).2]

/-- The first braces are those behind a head without any. -/
theorem firstBraces_append {head : Code} (hhead : Token.word "\x7b" ∉ head) (hc : Balanced c)
    (rest : Code) : firstBraces (head ++ (braces c ++ rest)) = c := by
  induction head with
  | nil =>
      rw [braces_eq, List.nil_append, List.cons_append, firstBraces, if_pos rfl, List.append_assoc,
        hc.inside_append, List.singleton_append, inside, if_pos ⟨rfl, by decide⟩, List.append_nil]
  | cons t head ih =>
      rw [List.mem_cons, not_or] at hhead
      rw [List.cons_append, firstBraces, if_neg (Ne.symm hhead.1), ih hhead.2]

theorem arm?_eq {pattern result : Code} (hpattern : Phrase pattern) (hresult : Phrase result) :
    arm? (pattern ++ Token.word "=>" :: result) = some (pattern, result) := by
  rw [arm?, hpattern.pieces_divider (by decide), hresult.pieces_eq (by decide)]

theorem functionBody?_statement (name : String) (h : Phrase c) (rest : Code) :
    functionBody? name (c ++ Token.word ";" :: rest) = functionBody? name rest := by
  rw [functionBody?, h.pieces_append (by decide), pieces_other (by decide) (by decide),
    functionBody?]
  cases pieces (.word "fn") 0 rest <;> rfl

theorem functionBody?_function (name : String) {own : String} {signature body : Code}
    (hhead : signature.head? = some (.word own)) (hsignature : Phrase signature)
    (hbrace : Token.word "\x7b" ∉ signature) (hbody : Balanced body) (rest : Code) :
    functionBody? name (function signature body ++ rest) =
      if own = name then some body else functionBody? name rest := by
  have hcode : function signature body ++ rest =
      Token.word "fn" :: ((signature ++ braces body) ++ rest) := by
    rw [function, show words "fn" = [Token.word "fn"] from rfl]
    simp
  obtain ⟨first, more, hrest⟩ := List.exists_cons_of_ne_nil (pieces_ne_nil (.word "fn") 0 rest)
  have hown : (signature ++ braces body ++ first).head? = some (.word own) := by
    rw [List.append_assoc, List.head?_append, hhead, Option.some_or]
  rw [functionBody?, functionBody?, hcode, pieces_divider,
    (hsignature.append (.braces hbody)).pieces_append (by decide), hrest, List.modifyHead_cons,
    List.tail_cons, List.tail_cons, List.find?_cons, hown]
  by_cases h : own = name
  · simp [h, firstBraces_append hbrace hbody]
  · simp [h]

end Reading

end EntitySchema.Code
