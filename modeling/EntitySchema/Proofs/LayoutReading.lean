import EntitySchema.Proofs.Skipping

/-!
# Reading spelled values by layouts

`Reads r text a` says that a reader takes exactly `text`, behind any blanks, and gives `a`. Texts,
numbers, lists and values that may be `null` are read whatever their spelling. A record is read from
an object whose entries come in any order, with unknown entries between them: `read_record` says
that each member gets what its one entry holds.

## Implementation notes

While an object is read, its places hold what the entries seen so far have brought
(`Slots.Holds`). One entry keeps this (`readMember_entry`), and so does a row of entries
(`readEntries_further`).
-/

namespace EntitySchema.Json

open Cursor

variable {α : Type}

/-- A reader takes exactly a text, behind any blanks. -/
def Reads (r : Reader α) (text : List Char) (a : α) : Prop :=
  ∀ (ws : Blanks) (rest : List Char) (p : Position), Delimited rest →
    r ⟨ws.chars ++ (text ++ rest), p⟩ = .ok (a, ⟨rest, (p.after ws.chars).after text⟩)

/-- A text is read as one value only. -/
theorem Reads.unique {r : Reader α} {text : List Char} {a b : α} (ha : Reads r text a)
    (hb : Reads r text b) : a = b := by
  have hnil : Delimited [] := nofun
  have := (ha .none [] ⟨1, 0⟩ hnil).symm.trans (hb .none [] ⟨1, 0⟩ hnil)
  exact congrArg Prod.fst (Except.ok.inj this)

/-! ### Texts and numbers -/

theorem readEscape_letter {x y : Char} (h : (x, y) ∈ escapes) (rest : List Char) (p : Position) :
    readEscape ⟨x :: rest, p⟩ = .ok (y, ⟨rest, p.step x⟩) := by
  simp [readEscape, letterEscape_of_mem h]

theorem readEscape_u (cs : List Char) (p : Position) :
    readEscape ⟨'u' :: cs, p⟩ = readUnicode ⟨cs, p.step 'u'⟩ := rfl

theorem readUnicode_unit {u : CodeUnit} (h : u.code < 0xD800 ∨ 0xDFFF < u.code)
    (rest : List Char) (p : Position) :
    readUnicode ⟨u.digits ++ rest, p⟩ = .ok (Char.ofNat u.code, ⟨rest, p.after u.digits⟩) := by
  have low : isLowSurrogate u.code = false := by
    simp only [isLowSurrogate, Bool.and_eq_false_iff, decide_eq_false_iff_not]
    omega
  have high : isHighSurrogate u.code = false := by
    simp only [isHighSurrogate, Bool.and_eq_false_iff, decide_eq_false_iff_not]
    omega
  simp [readUnicode, readHex_digits, low, high, bind, Except.bind, pure, Except.pure]

theorem readUnicode_pair {u v : CodeUnit} (hu : 0xD800 ≤ u.code ∧ u.code < 0xDC00)
    (hv : 0xDC00 ≤ v.code ∧ v.code ≤ 0xDFFF) (rest : List Char) (p : Position) :
    readUnicode ⟨u.digits ++ ((Piece.unit v).text ++ rest), p⟩ =
      .ok (Char.ofNat (0x10000 + 0x400 * (u.code - 0xD800) + (v.code - 0xDC00)),
        ⟨rest, (p.after u.digits).after (Piece.unit v).text⟩) := by
  have low : isLowSurrogate u.code = false := by
    simp only [isLowSurrogate, Bool.and_eq_false_iff, decide_eq_false_iff_not]
    omega
  have high : isHighSurrogate u.code = true := by
    simp only [isHighSurrogate, Bool.and_eq_true, decide_eq_true_eq]
    omega
  have second : isLowSurrogate v.code = true := by
    simpa [isLowSurrogate] using hv
  simp [readUnicode, readHex_digits, low, high, second, readPairMark, Piece.text, bind, Except.bind,
    pure, Except.pure]

/-- A text inside a string is read as one character. -/
def Spells (text : List Char) (y : Char) : Prop :=
  ∀ fuel acc cs p,
    readChars (fuel + 1) acc ⟨text ++ cs, p⟩ = readChars fuel (y :: acc) ⟨cs, p.after text⟩

theorem spells_plain {x : Char} (allowed : x ≠ '"' ∧ x ≠ '\\' ∧ 0x20 ≤ x.toNat) :
    Spells (Piece.plain x allowed).text x := by
  intro fuel acc cs p
  obtain ⟨quote, backslash, printable⟩ := allowed
  simp [Piece.text, readChars, quote, backslash, Nat.not_lt.2 printable]

theorem spells_letter {x y : Char} (listed : (x, y) ∈ escapes) :
    Spells (Piece.letter x y listed).text y := by
  intro fuel acc cs p
  simp [Piece.text, readChars, readEscape_letter listed, bind, Except.bind]

theorem spells_unit {u : CodeUnit} (h : u.code < 0xD800 ∨ 0xDFFF < u.code) :
    Spells (Piece.unit u).text (Char.ofNat u.code) := by
  intro fuel acc cs p
  simp [Piece.text, readChars, readEscape_u, readUnicode_unit h, bind, Except.bind]

theorem spells_pair {u v : CodeUnit} (hu : 0xD800 ≤ u.code ∧ u.code < 0xDC00)
    (hv : 0xDC00 ≤ v.code ∧ v.code ≤ 0xDFFF) :
    Spells ((Piece.unit u).text ++ (Piece.unit v).text)
      (Char.ofNat (0x10000 + 0x400 * (u.code - 0xD800) + (v.code - 0xDC00))) := by
  intro fuel acc cs p
  have := readUnicode_pair hu hv cs ((p.step '\\').step 'u')
  simp only [Piece.text, List.cons_append] at this
  simp [Piece.text, readChars, readEscape_u, this, bind, Except.bind]

/-- One character is read before the rest of a string. -/
theorem Spells.cons {text : List Char} {y : Char} (h : Spells text y) {fuel : Nat}
    {acc ds cs : List Char} {p : Position} {c : Cursor}
    (hrest : readChars fuel (y :: acc) ⟨cs, p.after text⟩ =
      .ok (String.ofList ((y :: acc).reverse ++ ds), c)) :
    readChars (fuel + 1) acc ⟨text ++ cs, p⟩ = .ok (String.ofList (acc.reverse ++ y :: ds), c) := by
  rw [h, hrest]
  simp

/-- Pieces are read as the characters they stand for. -/
theorem readChars_pieces {pieces : List Piece} {cs : List Char}
    (h : Piece.meaning pieces = some cs) {fuel : Nat} (hfuel : pieces.length ≤ fuel)
    (acc rest : List Char) (p : Position) :
    readChars (fuel + 1) acc ⟨pieces.flatMap Piece.text ++ '"' :: rest, p⟩ =
      .ok (String.ofList (acc.reverse ++ cs),
        ⟨rest, (p.after (pieces.flatMap Piece.text)).step '"'⟩) := by
  -- Both halves of a surrogate pair are read in one step, so there may be steps left.
  fun_induction Piece.meaning pieces generalizing cs fuel acc p with
  | case1 =>
    obtain rfl := Option.some.inj h
    simp [readChars]
  | case2 x allowed pieces ih =>
    obtain ⟨ds, hds, rfl⟩ := Option.map_eq_some_iff.1 h
    obtain ⟨fuel, rfl⟩ := Nat.exists_eq_add_of_lt hfuel
    simp only [List.flatMap_cons, List.append_assoc, Position.after_append]
    exact (spells_plain allowed).cons (ih hds (Nat.le_add_right _ _) _ _)
  | case3 x y listed pieces ih =>
    obtain ⟨ds, hds, rfl⟩ := Option.map_eq_some_iff.1 h
    obtain ⟨fuel, rfl⟩ := Nat.exists_eq_add_of_lt hfuel
    simp only [List.flatMap_cons, List.append_assoc, Position.after_append]
    exact (spells_letter listed).cons (ih hds (Nat.le_add_right _ _) _ _)
  | case4 u pieces hu ih =>
    obtain ⟨ds, hds, rfl⟩ := Option.map_eq_some_iff.1 h
    obtain ⟨fuel, rfl⟩ := Nat.exists_eq_add_of_lt hfuel
    simp only [List.flatMap_cons, List.append_assoc, Position.after_append]
    exact (spells_unit hu).cons (ih hds (Nat.le_add_right _ _) _ _)
  | case5 u hu v pieces hv ih =>
    obtain ⟨ds, hds, rfl⟩ := Option.map_eq_some_iff.1 h
    obtain ⟨fuel, rfl⟩ := Nat.exists_eq_add_of_lt (Nat.lt_of_succ_lt hfuel)
    have hpair := spells_pair ⟨Nat.not_lt.1 fun hlt => hu (.inl hlt), hv.1⟩ hv.2
    have hread := hpair.cons (ih hds (Nat.le_add_right _ fuel) (_ :: acc) (p.after _))
    simpa only [List.flatMap_cons, List.append_assoc, Position.after_append] using hread
  | case6 u hu v pieces hv => cases h
  | case7 u pieces hu hpieces => cases h

theorem readString_pieces {pieces : List Piece} {s : String} (h : nameOf pieces = some s)
    (rest : List Char) (p : Position) :
    readString ⟨pieces.flatMap Piece.text ++ '"' :: rest, p⟩ =
      .ok (s, ⟨rest, (p.after (pieces.flatMap Piece.text)).step '"'⟩) := by
  obtain ⟨cs, hcs, rfl⟩ := Option.map_eq_some_iff.1 h
  refine readChars_pieces hcs ?_ [] rest p
  have := Piece.length_le_text pieces
  simp only [List.length_append]
  omega

theorem reads_text {pieces : List Piece} {s : String} (h : nameOf pieces = some s)
    (wanted : String) : Reads (readText wanted) (quotedText pieces) s := by
  intro ws rest p _
  have quote : isBlank '"' = false := by decide
  simp only [readText, skipBlanks_append, quotedText, List.cons_append, List.append_assoc,
    skipBlanks_cons quote, peek_cons, advance_cons, List.nil_append, Position.after_cons,
    Position.after_append, Position.after_nil]
  exact readString_pieces h rest _

/-- The digits of a numeral. -/
theorem digits_fst_numeral (n : Numeral) {rest : List Char} (h : Undigited rest) (p : Position) :
    (digits ⟨n.text ++ rest, p⟩).1 = (n.first :: n.more).map Fin.val := by
  have hrest : rest.takeWhile Char.isDigit = [] := by
    cases rest with
    | nil => rfl
    | cons x rest => simp [h x rfl]
  have hvalue : ∀ d : Fin 10, (digitChar d).toNat - '0'.toNat = d.val := by decide
  have htext : n.text = (n.first :: n.more).map digitChar := rfl
  simp only [digits]
  rw [List.takeWhile_append_of_pos n.isDigit_of_mem_text, hrest, List.append_nil, htext,
    List.map_map]
  exact List.map_congr_left fun d _ => hvalue d

theorem le_foldl_digits (n : Nat) (ds : List (Fin 10)) :
    n ≤ ds.foldl (fun v d => 10 * v + d.val) n := by
  induction ds generalizing n with
  | nil => exact Nat.le_refl n
  | cons d ds ih => exact Nat.le_trans (by omega) (ih (10 * n + d))

/-- No digit is left over from a number within the limit. -/
theorem absorb_digits {limit n : Nat} {ds : List (Fin 10)}
    (h : ds.foldl (fun v d => 10 * v + d.val) n ≤ limit) :
    absorb limit n (ds.map Fin.val) = (ds.foldl (fun v d => 10 * v + d.val) n, []) := by
  induction ds generalizing n with
  | nil => rfl
  | cons d ds ih =>
    have hstep : ¬ limit < 10 * n + d := Nat.not_lt.2 (Nat.le_trans (le_foldl_digits _ ds) h)
    rw [List.map_cons, absorb, if_neg hstep]
    exact ih h

/-- A number written by its digits is read as itself. -/
theorem readNumber_plain {f : Figure} {n : Nat} (h : f.IsPlain n) (hn : n ≤ maxSignificand)
    {rest : List Char} (hrest : Delimited rest) (p : Position) :
    readNumber false ⟨f.text ++ rest, p⟩ = .ok (.natural n, ⟨rest, p.after f.text⟩) := by
  obtain ⟨isNegative, whole, canonical, fraction, exponent⟩ := f
  obtain ⟨rfl, rfl, rfl, rfl⟩ := h
  have htext : Figure.text ⟨false, whole, canonical, none, none⟩ = whole.text := by
    simp [Figure.text, Figure.unsignedText, Figure.fractionText, Figure.exponentText]
  have hstop : Undigited rest := fun x hx => (hrest x hx).1
  have hzero : (decide (digitChar whole.first = '0') &&
      (advance ⟨whole.text ++ rest, p⟩).peek.any Char.isDigit) = false := by
    by_cases hfirst : digitChar whole.first = '0'
    · rw [any_peek_behind_zero canonical hfirst hstop, Bool.and_false]
    · simp [hfirst]
  have habsorb : absorb maxSignificand 0 ((whole.first :: whole.more).map Fin.val) =
      (whole.value, []) := by
    have hvalue : (whole.first :: whole.more).foldl (fun v d => 10 * v + d.val) 0 = whole.value := by
      simp [Numeral.value]
    rw [absorb_digits (hvalue.symm ▸ hn), hvalue]
  have hpeek : peek ⟨whole.text ++ rest, p⟩ = some (digitChar whole.first) := rfl
  rw [htext, readNumber, hpeek]
  simp only [isDigit_digitChar, Bool.not_true, Bool.false_eq_true, if_false, hzero,
    digits_numeral whole hstop, digits_fst_numeral whole hstop, habsorb]
  cases rest with
  | nil => rfl
  | cons x rest =>
    obtain ⟨-, point, lower, upper⟩ := hrest x rfl
    simp [point, lower, upper, Number.ofInteger]

theorem reads_word {f : Figure} {n : UInt32} (h : f.IsPlain n.toNat) (wanted : String) :
    Reads (readUInt32 wanted) f.text n := by
  intro ws rest p hrest
  obtain ⟨x, cs, htext, hdigit⟩ : ∃ x cs, f.text = x :: cs ∧ x.isDigit = true :=
    ⟨_, _, by rw [Figure.text, h.1]; rfl, isDigit_digitChar f.whole.first⟩
  have hblank : isBlank x = false := by
    obtain ⟨y, ds, hy, hblank, -⟩ := (Tree.number f).text_head
    obtain rfl : x = y := (List.cons.inj (htext.symm.trans hy)).1
    exact hblank
  have minus : x ≠ '-' := by
    rintro rfl
    exact absurd hdigit (by decide)
  have hbound : n.toNat ≤ maxSignificand := by
    have := n.toNat_lt
    simp only [maxSignificand, UInt64.size]
    omega
  have hnumber := readNumber_plain h hbound hrest (p.after ws.chars)
  rw [htext, List.cons_append] at hnumber
  simp [readUInt32, htext, skipBlanks_cons hblank, minus, hdigit, hnumber, Number.toWord,
    UInt32.toNat_lt_size, bind, Except.bind, pure, Except.pure]

/-! ### Lists and values that may be `null` -/

@[simp] theorem nextItem_blanks (first : Bool) (ws : Blanks) (cs : List Char) (p : Position) :
    nextItem first ⟨ws.chars ++ cs, p⟩ = nextItem first ⟨cs, p.after ws.chars⟩ := by
  simp only [nextItem, skipBlanks_append]

theorem nextItem_close (first : Bool) (rest : List Char) (p : Position) :
    nextItem first ⟨']' :: rest, p⟩ = .ok (false, ⟨']' :: rest, p⟩) := rfl

theorem nextItem_first (t : Tree) (rest : List Char) (p : Position) :
    nextItem true ⟨t.text ++ rest, p⟩ = .ok (true, ⟨t.text ++ rest, p⟩) := by
  obtain ⟨x, cs, htext, hblank, hclose⟩ := t.text_head
  simp [nextItem, htext, skipBlanks_cons hblank]

theorem nextItem_comma (ws : Blanks) (t : Tree) (rest : List Char) (p : Position) :
    nextItem false ⟨',' :: (ws.chars ++ (t.text ++ rest)), p⟩ =
      .ok (true, ⟨t.text ++ rest, (p.step ',').after ws.chars⟩) := by
  obtain ⟨x, cs, htext, hblank, hclose⟩ := t.text_head
  have comma : isBlank ',' = false := by decide
  simp [nextItem, htext, skipBlanks_cons comma, skipBlanks_cons hblank]

/-- The items behind the first one, each with its comma. -/
def furtherText (texts : List (List Char)) : List Char := texts.flatMap (',' :: ·)

theorem commas_cons (text : List Char) (texts : List (List Char)) :
    commas (text :: texts) = text ++ furtherText texts := by
  induction texts generalizing text with
  | nil => simp [commas, furtherText]
  | cons next texts ih => simp [commas, furtherText, ih next]

theorem delimited_further (texts : List (List Char)) (b : Bracket) (rest : List Char) :
    Delimited (furtherText texts ++ b.close :: rest) := by
  cases texts with
  | nil => exact delimited_close b rest
  | cons text texts => exact delimited_comma _

/-- An item is read once it is found. -/
theorem readItems_item {r : Reader α} {c : Cursor} {x : Item Tree} {v : α} {rest : List Char}
    {p : Position} (index : Nat) (hnext : nextItem (index == 0) c = .ok (true, ⟨x.value.text ++
      (x.after.chars ++ rest), p⟩)) (hx : Reads r x.value.text v) (hrest : Delimited rest)
    (fuel : Nat) (acc : List α) :
    readItems r (fuel + 2) index acc c =
      readItems r (fuel + 1) (index + 1) (v :: acc)
        ⟨rest, (p.after x.value.text).after x.after.chars⟩ := by
  have hread := hx .none _ p (hrest.blanks x.after)
  have hblanks : readItems r (fuel + 1) (index + 1) (v :: acc)
      ⟨x.after.chars ++ rest, p.after x.value.text⟩ = readItems r (fuel + 1) (index + 1) (v :: acc)
        ⟨rest, (p.after x.value.text).after x.after.chars⟩ := by
    simp only [readItems, nextItem_blanks]
  rw [← hblanks]
  simp only [Blanks.none, List.nil_append, Position.after_nil] at hread
  rw [readItems, hnext]
  simp [bind, Except.bind, hread, Fault.under, Except.mapError]

/-- Items behind the first one are read up to the closing bracket. -/
theorem readItems_further {r : Reader α} {items : List (Item Tree)} {vs : List α}
    (h : List.Forall₂ (fun x v => Reads r (Item.value x).text v) items vs) {fuel : Nat}
    (hfuel : items.length ≤ fuel) (index : Nat) (acc : List α) (rest : List Char) (p : Position) :
    readItems r (fuel + 1) (index + 1) acc
        ⟨furtherText (items.map Item.text) ++ ']' :: rest, p⟩ =
      .ok (acc.reverse ++ vs,
        ⟨rest, (p.after (furtherText (items.map Item.text))).step ']'⟩) := by
  induction h generalizing fuel index acc p with
  | nil => simp [readItems, furtherText, nextItem_close, bind, Except.bind, pure, Except.pure]
  | @cons x v items vs hx hitems ih =>
    obtain ⟨fuel, rfl⟩ := Nat.exists_eq_add_of_lt hfuel
    have hnext := nextItem_comma x.before x.value
      (x.after.chars ++ (furtherText (items.map Item.text) ++ ']' :: rest)) p
    have hread := readItems_item (index + 1) hnext hx
      (delimited_further _ .list rest) (items.length + fuel) acc
    rw [ih (Nat.le_add_right _ _)] at hread
    simpa [furtherText, Item.text] using hread

theorem readItems_commas {r : Reader α} {items : List (Item Tree)} {vs : List α}
    (h : List.Forall₂ (fun x v => Reads r (Item.value x).text v) items vs) {fuel : Nat}
    (hfuel : items.length ≤ fuel) (inside : Blanks) (rest : List Char) (p : Position) :
    readItems r (fuel + 1) 0 []
        ⟨inside.chars ++ (commas (items.map Item.text) ++ ']' :: rest), p⟩ =
      .ok (vs, ⟨rest,
        ((p.after inside.chars).after (commas (items.map Item.text))).step ']'⟩) := by
  cases h with
  | nil => simp [readItems, commas, nextItem_close, bind, Except.bind, pure, Except.pure]
  | @cons x v items vs hx hitems =>
    obtain ⟨fuel, rfl⟩ := Nat.exists_eq_add_of_lt hfuel
    have hnext : nextItem true ⟨inside.chars ++ (commas ((x :: items).map Item.text) ++
        ']' :: rest), p⟩ = .ok (true, ⟨x.value.text ++ (x.after.chars ++
          (furtherText (items.map Item.text) ++ ']' :: rest)),
          (p.after inside.chars).after x.before.chars⟩) := by
      simp only [List.map_cons, commas_cons, Item.text, List.append_assoc, nextItem_blanks,
        nextItem_first]
    rw [readItems_item 0 hnext hx (delimited_further _ .list rest),
      readItems_further hitems (Nat.le_add_right _ _)]
    simp [commas_cons, Item.text]

theorem length_le_commas (texts : List (List Char)) : texts.length ≤ (commas texts).length + 1 := by
  induction texts with
  | nil => exact Nat.zero_le _
  | cons text texts ih =>
    cases texts with
    | nil => simp
    | cons next texts =>
      simp only [commas, List.length_append, List.length_cons] at ih ⊢
      omega

/-- A list is read item by item. -/
theorem reads_list {r : Reader α} {items : List (Item Tree)} {vs : List α}
    (h : List.Forall₂ (fun x v => Reads r (Item.value x).text v) items vs) (inside : Blanks)
    (wanted : String) : Reads (readList r wanted) (Tree.list inside items).text vs := by
  intro ws rest p _
  have hopen : isBlank '[' = false := by decide
  rw [Tree.text, itemTexts_eq]
  simp only [readList, List.cons_append, List.append_assoc, List.nil_append, skipBlanks_append,
    skipBlanks_cons hopen, peek_cons, advance_cons, Position.after_cons, Position.after_append,
    Position.after_nil]
  refine readItems_commas h ?_ inside rest _
  have := length_le_commas (items.map Item.text)
  simp only [List.length_map, List.length_cons, List.length_append] at this ⊢
  omega

theorem reads_null (r : Reader α) : Reads (readOptional r) Tree.null.text none := by
  intro ws rest p _
  have hblank : isBlank 'n' = false := by decide
  simp only [readOptional, Tree.text, skipBlanks_append, List.cons_append, skipBlanks_cons hblank,
    peek_cons]
  rfl

/-- A value is read by the reader for it unless it could be `null`. -/
theorem reads_some {r : Reader α} {text : List Char} {v : α} (h : Reads r text v) {x : Char}
    {cs : List Char} (htext : text = x :: cs) (hblank : isBlank x = false) (hnull : x ≠ 'n') :
    Reads (readOptional r) text (some v) := by
  intro ws rest p hrest
  have hread := h .none rest (p.after ws.chars) hrest
  subst htext
  simp only [Blanks.none, List.nil_append, List.cons_append, Position.after_nil] at hread
  simp only [readOptional, skipBlanks_append, List.cons_append, skipBlanks_cons hblank, peek_cons]
  split
  · next heq => exact absurd (Option.some.inj heq) hnull
  · simp [hread, bind, Except.bind, pure, Except.pure]

/-! ### Records -/

/-- The text of an entry between its key and the blanks behind it. -/
def Entry.held (e : Entry Tree) : List Char :=
  e.aside.chars ++ ':' :: (e.gap.chars ++ e.value.text)

/-- The name of an entry. -/
def Entry.name (e : Entry Tree) : Option String := nameOf e.key

/-- The values of the entries with a name. -/
def named (key : String) (entries : List (Entry Tree)) : List Tree :=
  (entries.filter fun e => e.name = some key).map Entry.value

theorem readColon_text (ws : Blanks) (cs : List Char) (p : Position) :
    readColon ⟨ws.chars ++ ':' :: cs, p⟩ = .ok ⟨cs, (p.after ws.chars).step ':'⟩ := by
  have hblank : isBlank ':' = false := by decide
  simp [readColon, skipBlanks_cons hblank]

@[simp] theorem nextKey_blanks (first : Bool) (ws : Blanks) (cs : List Char) (p : Position) :
    nextKey first ⟨ws.chars ++ cs, p⟩ = nextKey first ⟨cs, p.after ws.chars⟩ := by
  simp only [nextKey, skipBlanks_append]

theorem nextKey_close (first : Bool) (rest : List Char) (p : Position) :
    nextKey first ⟨'}' :: rest, p⟩ = .ok (none, ⟨'}' :: rest, p⟩) := rfl

theorem nextKey_first {key : List Piece} {name : String} (h : nameOf key = some name)
    (rest : List Char) (p : Position) :
    nextKey true ⟨quotedText key ++ rest, p⟩ = .ok (some name, ⟨rest, p.after (quotedText key)⟩) := by
  have hblank : isBlank '"' = false := by decide
  have hstring := readString_pieces h rest (p.step '"')
  simp [nextKey, quotedText, skipBlanks_cons hblank, hstring, bind, Except.bind, pure, Except.pure]

theorem nextKey_comma {key : List Piece} {name : String} (h : nameOf key = some name) (ws : Blanks)
    (rest : List Char) (p : Position) :
    nextKey false ⟨',' :: (ws.chars ++ (quotedText key ++ rest)), p⟩ =
      .ok (some name, ⟨rest, ((p.step ',').after ws.chars).after (quotedText key)⟩) := by
  have hblank : isBlank '"' = false := by decide
  have comma : isBlank ',' = false := by decide
  have hstring := readString_pieces h rest (((p.step ',').after ws.chars).step '"')
  simp [nextKey, quotedText, skipBlanks_cons hblank, skipBlanks_cons comma, hstring, bind,
    Except.bind, pure, Except.pure]

theorem Entry.text_eq (e : Entry Tree) (rest : List Char) :
    e.text ++ rest = e.before.chars ++ (quotedText e.key ++ (e.held ++ (e.after.chars ++ rest))) := by
  simp [Entry.text, Entry.held]

theorem Entry.after_text (e : Entry Tree) (p : Position) : p.after e.text =
    (((p.after e.before.chars).after (quotedText e.key)).after e.held).after e.after.chars := by
  simp [Entry.text, Entry.held]

@[simp] theorem named_nil (key : String) : named key [] = [] := rfl

theorem named_append (key : String) (entries more : List (Entry Tree)) :
    named key (entries ++ more) = named key entries ++ named key more := by
  simp [named]

theorem named_cons_of_eq {e : Entry Tree} {key : String} (h : e.name = some key)
    (entries : List (Entry Tree)) : named key (e :: entries) = e.value :: named key entries := by
  simp [named, h]

theorem named_cons_of_ne {e : Entry Tree} {name key : String} (h : e.name = some name)
    (hne : name ≠ key) (entries : List (Entry Tree)) :
    named key (e :: entries) = named key entries := by
  simp [named, h, hne]

/-- A place holds what the one value is read as, and is empty if there is no value. -/
def HoldsValue (layout : Layout) (values : List Tree) : Option layout.Content → Prop
  | none => values = []
  | some v => ∃ t, values = [t] ∧ Reads layout.read t.text v

/-- The places hold what entries have brought. -/
def Slots.Holds (entries : List (Entry Tree)) :
    (members : List (Member Layout)) → Slots members → Prop
  | [], () => True
  | m :: rest, (slot, slots) =>
    HoldsValue m.layout (named m.key entries) slot ∧ Slots.Holds entries rest slots

theorem HoldsValue.unique {layout : Layout} {values : List Tree} {a b : Option layout.Content}
    (ha : HoldsValue layout values a) (hb : HoldsValue layout values b) : a = b := by
  match a, b with
  | none, none => rfl
  | none, some _ =>
    obtain ⟨t, ht, -⟩ := hb
    exact absurd (ht.symm.trans ha) (List.cons_ne_nil t [])
  | some _, none =>
    obtain ⟨t, ht, -⟩ := ha
    exact absurd (ht.symm.trans hb) (List.cons_ne_nil t [])
  | some v, some w =>
    obtain ⟨t, ht, hv⟩ := ha
    obtain ⟨u, hu, hw⟩ := hb
    obtain rfl : t = u := (List.cons.inj (ht.symm.trans hu)).1
    rw [hv.unique hw]

theorem HoldsValue.readable {layout : Layout} {values : List Tree} {slot : Option layout.Content}
    (h : HoldsValue layout values slot) {t : Tree} (ht : t ∈ values) :
    values = [t] ∧ ∃ v, Reads layout.read t.text v := by
  match slot with
  | none =>
    have hnil : values = [] := h
    simp [hnil] at ht
  | some v =>
    obtain ⟨u, hu, hv⟩ := h
    obtain rfl : t = u := by simpa [hu] using ht
    exact ⟨hu, v, hv⟩

namespace Slots

variable {members : List (Member Layout)} {seen entries : List (Entry Tree)}

theorem Holds.unique {a b : Slots members} (ha : a.Holds entries members)
    (hb : b.Holds entries members) : a = b := by
  induction members with
  | nil => rfl
  | cons m rest ih => exact Prod.ext (ha.1.unique hb.1) (ih ha.2 hb.2)

theorem Holds.readable {slots : Slots members} (h : slots.Holds entries members) :
    ∀ m ∈ members, ∀ t ∈ named m.key entries,
      named m.key entries = [t] ∧ ∃ v, Reads m.layout.read t.text v := by
  induction members with
  | nil => exact nofun
  | cons m rest ih => exact List.forall_mem_cons.2 ⟨fun t ht => h.1.readable ht, ih h.2⟩

/-- Only the entries of the members count. -/
theorem Holds.congr {slots : Slots members} (h : slots.Holds seen members)
    (heq : ∀ m ∈ members, named m.key entries = named m.key seen) : slots.Holds entries members := by
  induction members with
  | nil => trivial
  | cons m rest ih =>
    obtain ⟨hm, hrest⟩ := List.forall_mem_cons.1 heq
    exact ⟨hm ▸ h.1, ih h.2 hrest⟩

theorem holds_empty : (empty members).Holds [] members := by
  induction members with
  | nil => trivial
  | cons m rest ih => exact ⟨rfl, ih⟩

end Slots

/-- The value of a member is read into its place. -/
theorem readMember_entry {members : List (Member Layout)} (hkeys : (members.map Member.key).Nodup)
    {seen : List (Entry Tree)} {slots : Slots members} (h : slots.Holds seen members)
    {e : Entry Tree} {name : String} (hname : e.name = some name)
    (hfresh : ∀ m ∈ members, m.key = name →
      named name seen = [] ∧ ∃ v, Reads m.layout.read e.value.text v) :
    ∃ slots' : Slots members, slots'.Holds (seen ++ [e]) members ∧
      ∀ rest p, Delimited rest → Layout.readMember members name slots ⟨e.held ++ rest, p⟩ =
        .ok (slots', ⟨rest, p.after e.held⟩) := by
  have hcolon (rest : List Char) (p : Position) : readColon ⟨e.held ++ rest, p⟩ =
      .ok ⟨e.gap.chars ++ (e.value.text ++ rest), (p.after e.aside.chars).step ':'⟩ := by
    simpa [Entry.held] using readColon_text e.aside (e.gap.chars ++ (e.value.text ++ rest)) p
  have hafter (p : Position) : p.after e.held =
      (((p.after e.aside.chars).step ':').after e.gap.chars).after e.value.text := by
    simp [Entry.held]
  induction members with
  | nil =>
    refine ⟨slots, trivial, fun rest p hrest => ?_⟩
    have hskip := skipValue_text e.value e.gap hrest ((p.after e.aside.chars).step ':')
    simp [Layout.readMember, hcolon, hskip, hafter, Fault.under, Except.mapError, bind, Except.bind,
      pure, Except.pure]
  | cons m members ih =>
    obtain ⟨key, required, layout⟩ := m
    obtain ⟨slot, slots⟩ := slots
    obtain ⟨hslot, hslots⟩ := h
    obtain ⟨hkey, hkeys⟩ := List.nodup_cons.1 hkeys
    by_cases heq : name = key
    · subst heq
      obtain ⟨hnone, v, hv⟩ := hfresh _ List.mem_cons_self rfl
      obtain rfl : slot = none := hslot.unique hnone
      refine ⟨(some v, slots), ⟨⟨e.value, ?_, hv⟩, hslots.congr fun m hm => ?_⟩,
        fun rest p hrest => ?_⟩
      · simp [named_append, hnone, named_cons_of_eq hname]
      · have hne : name ≠ m.key := fun h => hkey (List.mem_map.2 ⟨m, hm, h.symm⟩)
        simp [named_append, named_cons_of_ne hname hne]
      · have hread := hv e.gap rest ((p.after e.aside.chars).step ':') hrest
        simp [Layout.readMember, hcolon, hread, hafter, Fault.under, Except.mapError, bind,
          Except.bind, pure, Except.pure]
    · obtain ⟨slots', hholds, hread⟩ := ih hkeys hslots fun m hm => hfresh m (List.mem_cons_of_mem _ hm)
      refine ⟨(slot, slots'), ⟨?_, hholds⟩, fun rest p hrest => ?_⟩
      · simpa [named_append, named_cons_of_ne hname heq] using hslot
      · simp [Layout.readMember, heq, hread rest p hrest, bind, Except.bind, pure, Except.pure]

/-- An entry is read once its key is. -/
theorem readEntries_entry {σ : Type} {member : String → σ → Reader σ} {s s' : σ} {first : Bool}
    {c : Cursor} {e : Entry Tree} {name : String} {rest : List Char} {p : Position}
    (hnext : nextKey first c = .ok (some name, ⟨e.held ++ (e.after.chars ++ rest), p⟩))
    (hmember : member name s ⟨e.held ++ (e.after.chars ++ rest), p⟩ =
      .ok (s', ⟨e.after.chars ++ rest, p.after e.held⟩)) (fuel : Nat) :
    readEntries member (fuel + 2) first s c =
      readEntries member (fuel + 1) false s' ⟨rest, (p.after e.held).after e.after.chars⟩ := by
  have hblanks : readEntries member (fuel + 1) false s' ⟨e.after.chars ++ rest, p.after e.held⟩ =
      readEntries member (fuel + 1) false s' ⟨rest, (p.after e.held).after e.after.chars⟩ := by
    simp only [readEntries, nextKey_blanks]
  rw [← hblanks, readEntries, hnext]
  simp [hmember, Fault.under, Except.mapError, bind, Except.bind]

section Entries

variable {members : List (Member Layout)} {entries : List (Entry Tree)}

/-- The first entry of a row finds its place empty and is readable. -/
theorem fresh_of_readable (hreadable : ∀ m ∈ members, ∀ t ∈ named m.key entries,
      named m.key entries = [t] ∧ ∃ v, Reads m.layout.read t.text v)
    {seen more : List (Entry Tree)} {e : Entry Tree} (hsplit : entries = seen ++ e :: more)
    {name : String} (hname : e.name = some name) :
    ∀ m ∈ members, m.key = name →
      named name seen = [] ∧ ∃ v, Reads m.layout.read e.value.text v := by
  rintro m hm rfl
  have hnamed : named m.key entries = named m.key seen ++ e.value :: named m.key more := by
    rw [hsplit, named_append, named_cons_of_eq hname]
  obtain ⟨hone, hv⟩ := hreadable m hm e.value (by simp [hnamed])
  refine ⟨?_, hv⟩
  have hlength := congrArg List.length (hnamed.symm.trans hone)
  simp only [List.length_append, List.length_cons, List.length_nil] at hlength
  exact List.eq_nil_of_length_eq_zero (by omega)

/-- Entries behind the first one are read up to the closing brace. -/
theorem readEntries_further (hkeys : (members.map Member.key).Nodup)
    (hnames : ∀ e ∈ entries, ∃ name, e.name = some name)
    (hreadable : ∀ m ∈ members, ∀ t ∈ named m.key entries,
      named m.key entries = [t] ∧ ∃ v, Reads m.layout.read t.text v)
    {seen more : List (Entry Tree)} (hsplit : entries = seen ++ more) {slots : Slots members}
    (hslots : slots.Holds seen members) {fuel : Nat} (hfuel : more.length ≤ fuel)
    (rest : List Char) (p : Position) :
    ∃ slots' : Slots members, slots'.Holds entries members ∧
      readEntries (Layout.readMember members) (fuel + 1) false slots
          ⟨furtherText (more.map Entry.text) ++ '}' :: rest, p⟩ =
        .ok (slots', ⟨rest, (p.after (furtherText (more.map Entry.text))).step '}'⟩) := by
  induction more generalizing seen slots fuel p with
  | nil =>
    rw [List.append_nil] at hsplit
    refine ⟨slots, hsplit ▸ hslots, ?_⟩
    simp [readEntries, furtherText, nextKey_close, Fault.under, Except.mapError, bind, Except.bind,
      pure, Except.pure]
  | cons e more ih =>
    obtain ⟨fuel, rfl⟩ := Nat.exists_eq_add_of_lt hfuel
    obtain ⟨name, hname⟩ := hnames e (by simp [hsplit])
    obtain ⟨next, hnext, hmember⟩ := readMember_entry hkeys hslots hname
      (fresh_of_readable hreadable hsplit hname)
    have hkey := nextKey_comma hname e.before
      (e.held ++ (e.after.chars ++ (furtherText (more.map Entry.text) ++ '}' :: rest))) p
    have hread := readEntries_entry hkey
      (hmember _ _ ((delimited_further _ .object rest).blanks e.after)) (more.length + fuel)
    obtain ⟨slots', hholds, hrest⟩ := ih (hsplit.trans (List.append_cons seen e more)) hnext
      (Nat.le_add_right _ fuel) _
    refine ⟨slots', hholds, ?_⟩
    rw [hrest] at hread
    simpa [furtherText, Entry.text_eq, Entry.after_text] using hread

/-- Entries with commas between them are read up to the closing brace. -/
theorem readEntries_commas (hkeys : (members.map Member.key).Nodup)
    (hnames : ∀ e ∈ entries, ∃ name, e.name = some name) {slots : Slots members}
    (hslots : slots.Holds entries members) {fuel : Nat} (hfuel : entries.length ≤ fuel)
    (inside : Blanks) (rest : List Char) (p : Position) :
    readEntries (Layout.readMember members) (fuel + 1) true (Slots.empty members)
        ⟨inside.chars ++ (commas (entries.map Entry.text) ++ '}' :: rest), p⟩ =
      .ok (slots, ⟨rest,
        ((p.after inside.chars).after (commas (entries.map Entry.text))).step '}'⟩) := by
  cases entries with
  | nil =>
    obtain rfl := Slots.holds_empty.unique hslots
    simp [readEntries, commas, nextKey_close, Fault.under, Except.mapError, bind, Except.bind, pure,
      Except.pure]
  | cons e more =>
    obtain ⟨fuel, rfl⟩ := Nat.exists_eq_add_of_lt hfuel
    obtain ⟨name, hname⟩ := hnames e List.mem_cons_self
    obtain ⟨next, hnext, hmember⟩ := readMember_entry hkeys Slots.holds_empty hname
      (fresh_of_readable hslots.readable rfl hname)
    have hkey : nextKey true ⟨inside.chars ++ (commas ((e :: more).map Entry.text) ++ '}' :: rest),
        p⟩ = .ok (some name, ⟨e.held ++ (e.after.chars ++ (furtherText (more.map Entry.text) ++
          '}' :: rest)), ((p.after inside.chars).after e.before.chars).after (quotedText e.key)⟩) := by
      simp only [List.map_cons, commas_cons, List.append_assoc, Entry.text_eq, nextKey_blanks,
        nextKey_first hname]
    obtain ⟨slots', hholds, hrest⟩ := readEntries_further hkeys hnames hslots.readable rfl hnext
      (Nat.le_add_right _ fuel) rest _
    obtain rfl := hholds.unique hslots
    rw [readEntries_entry hkey
      (hmember _ _ ((delimited_further _ .object rest).blanks e.after)), hrest]
    simp [commas_cons, Entry.after_text]

/-- An object is read as a record, whatever follows it. -/
theorem read_record (hkeys : (members.map Member.key).Nodup)
    (hnames : ∀ e ∈ entries, ∃ name, e.name = some name) {slots : Slots members}
    (hslots : slots.Holds entries members) {contents : Layout.Contents members}
    (hfinish : slots.finish members = .ok contents) (record : String) (inside ws : Blanks)
    (rest : List Char) (p : Position) :
    (Layout.record record members).read
        ⟨ws.chars ++ ((Tree.object inside entries).text ++ rest), p⟩ =
      .ok (contents, ⟨rest, (p.after ws.chars).after (Tree.object inside entries).text⟩) := by
  have hopen : isBlank '{' = false := by decide
  have hfuel : entries.length ≤
      ('{' :: (inside.chars ++ (commas (entries.map Entry.text) ++ '}' :: rest))).length := by
    have := length_le_commas (entries.map Entry.text)
    simp only [List.length_map, List.length_cons, List.length_append] at this ⊢
    omega
  have hentries := readEntries_commas hkeys hnames hslots hfuel inside rest
    ((p.after ws.chars).step '{')
  rw [Tree.text, entryTexts_eq]
  simp only [Layout.read, readRecord, List.cons_append, List.append_assoc, List.nil_append,
    skipBlanks_append, skipBlanks_cons hopen, peek_cons, advance_cons, Position.after_cons,
    Position.after_append, Position.after_nil]
  rw [hentries]
  simp only [bind, Except.bind, hfinish]
  rfl

end Entries

end EntitySchema.Json
