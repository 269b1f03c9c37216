import EntitySchema.Proofs.Reading

/-!
# Readers that delimit what they read

A reader delimits what it reads when the bytes that it takes decide where they end: it moves behind
them whatever follows, and where the string stops earlier it says that bytes are missing. It also
never takes bytes that no guard has looked for. Both are kept when readers follow each other, so
they hold of the reader of objects because they hold of the reader of a number of bytes.

## Implementation notes

`Cursor.Yields` describes the bytes behind a success, `Cursor.Takes` is the description that matters
here. Positions saturate at the greatest one, so the guard is only as good as the read behind it
while the string is shorter than that; `Cursor.Placed` says so and is kept by every success.
-/

namespace EntitySchema.Wire.Cursor

variable {α β γ σ : Type}

/-- The string ends where the bytes from the position on do, and below the greatest position. -/
structure Placed (c : Cursor) : Prop where
  ends : c.offset + c.rest.length = c.size
  below : c.size < maxPosition

/-- Whatever a reader accepts, it has taken bytes that stand in a relation to the result, and it has
moved behind them. -/
def Yields (r : Cursor → Except DecodeError (α × Cursor)) (G : Bytes → α → Prop) : Prop :=
  ∀ size offset rest a c, offset ≤ maxPosition → r ⟨size, offset, rest⟩ = .ok (a, c) →
    ∃ used tail, G used a ∧ rest = used ++ tail ∧ offset + used.length ≤ maxPosition ∧
      c = ⟨size, offset + used.length, tail⟩

/-- A reader takes bytes for a result wherever they stand: it moves behind them whatever follows,
and it finds bytes missing where the string ends before they do. -/
structure Takes (r : Cursor → Except DecodeError (α × Cursor)) (used : Bytes) (a : α) : Prop where
  whole : ∀ size offset tail, offset + used.length ≤ size → offset + used.length ≤ maxPosition →
    r ⟨size, offset, used ++ tail⟩ = .ok (a, ⟨size, offset + used.length, tail⟩)
  cut : ∀ offset part missing, used = part ++ missing → missing ≠ [] →
    offset + used.length ≤ maxPosition →
    ∃ required, offset + part.length < required ∧
      r ⟨offset + part.length, offset, part⟩ =
        .error (.bufferTooShort required (offset + part.length))

/-- A reader that takes the bytes of every success wherever they stand, and takes no byte that is
not there. -/
structure Delimits (r : Cursor → Except DecodeError (α × Cursor)) : Prop where
  takes : Yields r (Takes r)
  guarded : ∀ c, c.Placed → r c ≠ .error .outOfRange

theorem Yields.mono {r : Cursor → Except DecodeError (α × Cursor)} {G H : Bytes → α → Prop}
    (h : Yields r G) (hGH : ∀ used a, G used a → H used a) : Yields r H := by
  intro size offset rest a c hoffset hr
  obtain ⟨used, tail, hG, hrest⟩ := h size offset rest a c hoffset hr
  exact ⟨used, tail, hGH used a hG, hrest⟩

/-- A success leaves the rest of the string behind the position. -/
theorem Yields.placed {r : Cursor → Except DecodeError (α × Cursor)} {G : Bytes → α → Prop}
    (h : Yields r G) {c c' : Cursor} {a : α} (hc : c.Placed) (hr : r c = .ok (a, c')) :
    c'.Placed := by
  have hends := hc.ends
  have hbelow := hc.below
  obtain ⟨used, tail, -, hrest, -, rfl⟩ := h c.size c.offset c.rest a c' (by omega) hr
  rw [hrest, List.length_append] at hends
  exact ⟨by simpa [Nat.add_assoc] using hends, hbelow⟩

/-! ### Reading one part after the other -/

section Sequence

variable {r : Cursor → Except DecodeError (α × Cursor)} {g : Cursor → α → Except DecodeError γ}
variable {k : γ → Cursor → Except DecodeError (β × Cursor)}

/-- Reads a part, judges it, and reads on with the judgement. The judgement may name the position at
which the part began. -/
def judged (r : Cursor → Except DecodeError (α × Cursor)) (g : Cursor → α → Except DecodeError γ)
    (k : γ → Cursor → Except DecodeError (β × Cursor)) (c : Cursor) :
    Except DecodeError (β × Cursor) := do
  let (a, rest) ← r c
  let b ← g c a
  k b rest

theorem Yields.judged {G : Bytes → α → Prop} {H : γ → Bytes → β → Prop} (h : Yields r G)
    (hk : ∀ b, Yields (k b) (H b)) :
    Yields (judged r g k) fun used x =>
      ∃ front back a b c, used = front ++ back ∧ G front a ∧ g c a = .ok b ∧ H b back x := by
  intro size offset rest x c' hoffset hread
  unfold Cursor.judged at hread
  cases hr : r ⟨size, offset, rest⟩ with
  | error e => simp [hr, bind, Except.bind] at hread
  | ok p =>
      obtain ⟨a, c⟩ := p
      cases hg : g ⟨size, offset, rest⟩ a with
      | error e => simp [hr, hg, bind, Except.bind] at hread
      | ok b =>
          obtain ⟨front, middle, hG, hrest, hfront, rfl⟩ := h size offset rest a c hoffset hr
          have hback : k b ⟨size, offset + front.length, middle⟩ = .ok (x, c') := by
            simpa [hr, hg, bind, Except.bind] using hread
          obtain ⟨back, tail, hH, hmiddle, hend, rfl⟩ := hk b _ _ _ x c' hfront hback
          refine ⟨front ++ back, tail, ⟨front, back, a, b, _, rfl, hG, hg, hH⟩, ?_, ?_, ?_⟩
          · rw [hrest, hmiddle, List.append_assoc]
          · rw [List.length_append]
            omega
          · rw [List.length_append, Nat.add_assoc]

/-- Bytes that are taken one after the other are taken together. -/
theorem Takes.judged {front back : Bytes} {a : α} {b : γ} {x : β} (h : Takes r front a)
    (hg : ∀ c, g c a = .ok b) (hk : Takes (k b) back x) :
    Takes (judged r g k) (front ++ back) x where
  whole size offset tail hsize hend := by
    rw [List.length_append] at hsize hend
    have hfront := h.whole size offset (back ++ tail) (by omega) (by omega)
    have hback := hk.whole size (offset + front.length) tail (by omega) (by omega)
    simp only [Cursor.judged, List.append_assoc, hfront, hg, hback, bind, Except.bind,
      List.length_append, Nat.add_assoc]
  cut offset part missing hused hmissing hend := by
    rw [List.length_append] at hend
    rcases List.append_eq_append_iff.mp hused with ⟨more, rfl, hback⟩ | ⟨more, rfl, hmiss⟩
    · -- the string ends within the second part
      obtain ⟨required, hlt, herror⟩ :=
        hk.cut (offset + front.length) more missing hback hmissing (by omega)
      have hfront := h.whole (offset + front.length + more.length) offset more (by omega) (by omega)
      refine ⟨required, by rw [List.length_append]; omega, ?_⟩
      rw [List.length_append, ← Nat.add_assoc]
      simp only [Cursor.judged, hfront, hg, herror, bind, Except.bind]
    · cases more with
      | nil =>
          -- the string ends between the parts
          rw [List.append_nil] at h hend
          obtain ⟨required, hlt, herror⟩ :=
            hk.cut (offset + part.length) [] back rfl (by simpa [hmiss] using hmissing) (by omega)
          have hfront := h.whole (offset + part.length) offset [] (by omega) (by omega)
          rw [List.append_nil] at hfront
          rw [List.length_nil, Nat.add_zero] at hlt herror
          refine ⟨required, hlt, ?_⟩
          simp only [Cursor.judged, hfront, hg, herror, bind, Except.bind]
      | cons m more =>
          -- the string ends within the first part
          obtain ⟨required, hlt, herror⟩ :=
            h.cut offset part (m :: more) rfl (List.cons_ne_nil m more) (by omega)
          refine ⟨required, hlt, ?_⟩
          simp only [Cursor.judged, herror, bind, Except.bind]

/-- Readers that delimit what they read do so one after the other, if a part that is accepted in one
place is accepted in every place. -/
theorem Delimits.judged (h : Delimits r) (hk : ∀ b, Delimits (k b))
    (hg : ∀ c c' a b, g c a = .ok b → g c' a = .ok b)
    (hne : ∀ c a, g c a ≠ .error .outOfRange) : Delimits (judged r g k) where
  takes := by
    refine (h.takes.judged fun b => (hk b).takes).mono ?_
    rintro used x ⟨front, back, a, b, c, rfl, hfront, hb, hback⟩
    exact hfront.judged (fun c' => hg c c' a b hb) hback
  guarded c hc := by
    unfold Cursor.judged
    cases hr : r c with
    | error e =>
        intro he
        obtain rfl := Except.error.inj he
        exact h.guarded c hc hr
    | ok p =>
        cases hb : g c p.1 with
        | error e =>
            intro he
            simp only [bind, Except.bind, hb] at he
            obtain rfl := Except.error.inj he
            exact hne c p.1 hb
        | ok b =>
            simp only [bind, Except.bind, hb]
            exact (hk b).guarded p.2 (h.takes.placed hc hr)

end Sequence

/-! ### Combinations -/

section Combinations

variable {r : Cursor → Except DecodeError (α × Cursor)} {G : Bytes → α → Prop}

theorem yields_pure (a : α) : Yields (fun c => .ok (a, c)) fun used b => used = [] ∧ b = a := by
  intro size offset rest b c hoffset h
  obtain ⟨rfl, rfl⟩ := Prod.mk.inj (Except.ok.inj h)
  exact ⟨[], rest, ⟨rfl, rfl⟩, rfl, hoffset, rfl⟩

theorem Yields.bind {k : α → Cursor → Except DecodeError (β × Cursor)} {H : α → Bytes → β → Prop}
    (h : Yields r G) (hk : ∀ a, Yields (k a) (H a)) :
    Yields (fun c => r c >>= fun p => k p.1 p.2) fun used x =>
      ∃ front back a, used = front ++ back ∧ G front a ∧ H a back x := by
  refine (h.judged (g := fun _ a => .ok a) hk).mono ?_
  rintro used x ⟨front, back, a, b, c, hused, hG, hb, hH⟩
  obtain rfl := Except.ok.inj hb
  exact ⟨front, back, a, hused, hG, hH⟩

theorem Yields.map (h : Yields r G) (f : α → β) :
    Yields (fun c => r c >>= fun p => pure (f p.1, p.2)) fun used b => ∃ a, G used a ∧ b = f a := by
  refine (h.bind fun a => yields_pure (f a)).mono ?_
  rintro used b ⟨front, back, a, rfl, hG, rfl, rfl⟩
  exact ⟨a, by rwa [List.append_nil], rfl⟩

/-- What a counted list was read from is one item after the other. -/
theorem Yields.fold {step : σ → Cursor → Except DecodeError (σ × Cursor)} {P : ι → Prop}
    {code : ι → Bytes} {collect : σ → ι → σ}
    (h : ∀ s, Yields (step s) fun used t => ∃ x, P x ∧ used = code x ∧ t = collect s x) (n : Nat)
    (s : σ) :
    Yields (Cursor.fold step n s) fun used t => ∃ xs : List ι, xs.length = n ∧ (∀ x ∈ xs, P x) ∧
      used = xs.flatMap code ∧ t = xs.foldl collect s := by
  induction n generalizing s with
  | zero =>
      refine (yields_pure s).mono ?_
      rintro used t ⟨rfl, rfl⟩
      exact ⟨[], rfl, by simp, rfl, rfl⟩
  | succ n ih =>
      refine ((h s).bind ih).mono ?_
      rintro used t ⟨front, back, s', rfl, ⟨x, hx, rfl, rfl⟩, xs, rfl, hxs, rfl, rfl⟩
      exact ⟨x :: xs, rfl, List.forall_mem_cons.mpr ⟨hx, hxs⟩, rfl, rfl⟩

theorem delimits_pure (a : α) : Delimits fun c => .ok (a, c) where
  takes := by
    refine (yields_pure a).mono ?_
    rintro used b ⟨rfl, rfl⟩
    refine ⟨fun _ _ _ _ _ => rfl, ?_⟩
    intro offset part missing hused hmissing
    exact absurd (List.append_eq_nil_iff.mp hused.symm).2 hmissing
  guarded _ _ := nofun

/-- A reader that refuses everything delimits what it reads. -/
theorem delimits_error {e : DecodeError} (he : e ≠ .outOfRange) :
    Delimits fun _ => (.error e : Except DecodeError (α × Cursor)) where
  takes := nofun
  guarded _ _ h := he (Except.error.inj h)

theorem Delimits.bind {k : α → Cursor → Except DecodeError (β × Cursor)} (h : Delimits r)
    (hk : ∀ a, Delimits (k a)) : Delimits fun c => r c >>= fun p => k p.1 p.2 :=
  h.judged (g := fun _ a => .ok a) hk (fun _ _ _ _ hg => hg) fun _ _ => nofun

theorem Delimits.map (h : Delimits r) (f : α → β) :
    Delimits fun c => r c >>= fun p => pure (f p.1, p.2) :=
  h.bind fun a => delimits_pure (f a)

/-- Reading one item after the other delimits them if reading one of them does. -/
theorem Delimits.fold {step : σ → Cursor → Except DecodeError (σ × Cursor)}
    (h : ∀ s, Delimits (step s)) (n : Nat) (s : σ) : Delimits (Cursor.fold step n s) := by
  induction n generalizing s with
  | zero => exact delimits_pure s
  | succ n ih => exact (h s).bind ih

end Combinations

/-! ### Whole strings -/

section Complete

variable {r : Cursor → Except DecodeError (α × Cursor)}

/-- Reads a whole string with a reader that has to end where the string does. -/
def complete (r : Cursor → Except DecodeError (α × Cursor)) (bytes : Bytes) :
    Except DecodeError α := do
  let (a, c) ← r (start bytes)
  c.finish
  pure a

theorem complete_of_error {bytes : Bytes} {e : DecodeError} (h : r (start bytes) = .error e) :
    complete r bytes = .error e := by
  rw [complete, h]
  rfl

theorem complete_of_ok {bytes : Bytes} {a : α} {c : Cursor} (h : r (start bytes) = .ok (a, c)) :
    complete r bytes =
      if 0 < c.size - c.offset then .error (.trailingBytes (c.size - c.offset)) else .ok a := by
  rw [complete, h]
  change (c.finish >>= fun _ => pure a) = _
  rw [finish]
  split_ifs <;> rfl

theorem start_eq (bytes : Bytes) : start bytes = ⟨bytes.length, 0, bytes⟩ := rfl

/-- A string that is read as a whole consists of the bytes behind the success. -/
theorem Yields.of_complete {G : Bytes → α → Prop} (h : Yields r G) {bytes : Bytes} {a : α}
    (hread : complete r bytes = .ok a) : G bytes a ∧ bytes.length ≤ maxPosition := by
  cases hr : r (start bytes) with
  | error e =>
      rw [complete_of_error hr] at hread
      cases hread
  | ok p =>
      obtain ⟨b, c⟩ := p
      rw [complete_of_ok hr] at hread
      rw [start_eq] at hr
      obtain ⟨used, tail, hG, rfl, hend, rfl⟩ := h _ 0 _ b c (Nat.zero_le _) hr
      split_ifs at hread with hremaining
      obtain rfl := Except.ok.inj hread
      have htail : tail = [] := by
        simp only [List.length_append] at hremaining
        exact List.eq_nil_of_length_eq_zero (by omega)
      subst htail
      rw [List.append_nil]
      exact ⟨hG, by omega⟩

end Complete

/-! ### The readers of the format -/

theorem take_of_short {c : Cursor} {n : Nat} (h : c.size < min (c.offset + n) maxPosition) :
    c.take n = .error (.bufferTooShort (min (c.offset + n) maxPosition) c.size) := by
  rw [take, ensure, if_pos h]
  rfl

theorem take_eq_ok {c c' : Cursor} {n : Nat} {a : Bytes} (h : c.take n = .ok (a, c')) :
    n ≤ c.rest.length ∧ c.offset + n ≤ maxPosition ∧ a = c.rest.take n ∧
      c' = ⟨c.size, c.offset + n, c.rest.drop n⟩ := by
  by_cases hshort : c.size < min (c.offset + n) maxPosition
  · rw [take_of_short hshort] at h
    cases h
  · rw [take, ensure, if_neg hshort] at h
    change c.advance n = _ at h
    simp only [advance, List.length_take] at h
    split_ifs at h with hthere
    obtain ⟨rfl, rfl⟩ := Prod.mk.inj (Except.ok.inj h)
    exact ⟨by omega, hthere.2, rfl, rfl⟩

theorem take_of_le {c : Cursor} {n : Nat} (hthere : n ≤ c.rest.length)
    (hsize : c.offset + n ≤ c.size) (hend : c.offset + n ≤ maxPosition) :
    c.take n = .ok (c.rest.take n, ⟨c.size, c.offset + n, c.rest.drop n⟩) := by
  have hlong : ¬ c.size < min (c.offset + n) maxPosition := by omega
  have hadvance : (c.rest.take n).length = n ∧ c.offset + n ≤ maxPosition := by
    rw [List.length_take]
    omega
  rw [take, ensure, if_neg hlong, advance, if_pos hadvance]
  rfl

theorem take_yields (n : Nat) : Yields (take · n) fun used b => used = b ∧ b.length = n := by
  intro size offset rest b c _ h
  obtain ⟨hthere, hend, rfl, rfl⟩ := take_eq_ok h
  have hlength : (rest.take n).length = n := by simpa using hthere
  exact ⟨rest.take n, rest.drop n, ⟨rfl, hlength⟩, (List.take_append_drop n rest).symm,
    by rwa [hlength], by rw [hlength]⟩

/-- The guard lets a number of bytes pass exactly when they are there, so the read behind it takes
no byte that is missing. -/
theorem take_delimits (n : Nat) : Delimits (take · n) where
  takes := by
    refine (take_yields n).mono ?_
    rintro used b ⟨rfl, hlength⟩
    constructor
    · intro size offset tail hsize hend
      rw [hlength] at hsize hend ⊢
      rw [take_of_le (by simp [hlength]) hsize hend]
      simp only [List.take_left' hlength, List.drop_left' hlength]
    · intro offset part missing hused hmissing hend
      have hpart : part.length < n := by
        rw [← hlength, hused, List.length_append]
        exact Nat.lt_add_of_pos_right (List.length_pos_of_ne_nil hmissing)
      rw [hlength] at hend
      have hshort : offset + part.length < min (offset + n) maxPosition := by omega
      exact ⟨_, hshort, take_of_short hshort⟩
  guarded c hc := by
    have hends := hc.ends
    have hbelow := hc.below
    by_cases hshort : c.size < min (c.offset + n) maxPosition
    · rw [take_of_short hshort]
      exact nofun
    · rw [take_of_le (by omega) (by omega) (by omega)]
      exact nofun

/-- Behind no guard, a read beyond the end fails. -/
example : (start [1]).advance 4 = .error .outOfRange := rfl

theorem word_delimits (width : Nat) : Delimits (word · width) :=
  (take_delimits width).map ofLittleEndian

theorem word32_delimits : Delimits word32 := (word_delimits 4).map UInt32.ofNat

theorem prefixed_delimits : Delimits prefixed :=
  word32_delimits.bind fun n => take_delimits n.toNat

/-- The text of bytes that were read at a position. -/
def judgeText (c : Cursor) (bytes : Bytes) : Except DecodeError String :=
  match String.fromUTF8? ⟨bytes.toArray⟩ with
  | some s => .ok s
  | none => .error (.invalidUtf8 c.offset)

theorem text_eq_judged : text = judged prefixed judgeText fun s c => .ok (s, c) := by
  funext c
  unfold text judged
  cases c.prefixed with
  | error e => rfl
  | ok p =>
      simp only [bind, Except.bind, judgeText]
      cases String.fromUTF8? ⟨p.1.toArray⟩ <;> rfl

theorem text_delimits : Delimits text := by
  rw [text_eq_judged]
  apply prefixed_delimits.judged delimits_pure
  · intro c c' bytes s h
    unfold judgeText at h ⊢
    split at h
    · exact h
    · cases h
  · intro c bytes
    unfold judgeText
    split <;> exact nofun

/-- The kind that a tag announces at a position. -/
def judgeTag (c : Cursor) (tag : Nat) : Except DecodeError Kind :=
  match Kind.ofTag? (.ofNat tag) with
  | some kind => .ok kind
  | none => .error (.invalidValueTag (.ofNat tag) c.offset)

section Objects

variable {child : Cursor → Except DecodeError (Object × Cursor)}

/-- Every kind that is carried by one word is read as wide as its table says. -/
theorem exists_content_eq_fixed {kind : Kind} {width : Nat} (h : kind.fixedSize = some width)
    (child : Cursor → Except DecodeError (Object × Cursor)) :
    ∃ make, ∀ c, content child c kind = fixed c width make := by
  cases kind <;> cases h <;> exact ⟨_, fun c => by rw [content]⟩

theorem payload_delimits (hchild : Delimits child) (kind : Kind) :
    Delimits fun c => payload child c kind := by
  cases hsize : kind.fixedSize with
  | some width =>
      obtain ⟨make, hmake⟩ := exists_content_eq_fixed hsize child
      simp only [payload_eq_word hsize hmake]
      exact (word_delimits width).map make
  | none =>
      cases kind with
      | string => exact text_delimits.map Value.string
      | bytes => exact prefixed_delimits.map Value.bytes
      | object => exact hchild.map Value.object
      | _ => cases hsize

theorem value_eq_judged :
    value child = judged (word · 1) judgeTag fun kind c => payload child c kind := by
  funext c
  simp only [value, judged]
  cases c.word 1 with
  | error e => rfl
  | ok p =>
      simp only [bind, Except.bind, judgeTag]
      cases Kind.ofTag? (.ofNat p.1) <;> rfl

theorem value_delimits (hchild : Delimits child) : Delimits (value child) := by
  rw [value_eq_judged]
  apply (word_delimits 1).judged (payload_delimits hchild)
  · intro c c' tag kind h
    unfold judgeTag at h ⊢
    split at h
    · exact h
    · cases h
  · intro c tag
    unfold judgeTag
    split <;> exact nofun

theorem field_delimits (hchild : Delimits child) (o : Object) : Delimits (field child o) :=
  word32_delimits.bind fun f => word32_delimits.bind fun count =>
    (Delimits.fold (fun values => (value_delimits hchild).map (· :: values)) count.toNat []).map
      fun values => o.pushAll f values.reverse

/-- The reader of objects delimits them, whatever the number of levels left. -/
theorem object_delimits (levels : Nat) : Delimits (object levels) := by
  induction levels with
  | zero => exact delimits_error nofun
  | succ levels ih =>
      exact word32_delimits.bind fun count => Delimits.fold (field_delimits ih) count.toNat .empty

end Objects

end EntitySchema.Wire.Cursor
