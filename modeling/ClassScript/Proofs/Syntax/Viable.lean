/-
# A text that is cut off

Two streams begin with the same tokens; behind them the first one has the end of the input and
the second one goes on (`Cut`). A parser does the same on both as long as it looks at the common
tokens. If it looks further, then on the first stream it has come to the end, and from there on
it reads nothing more and can only be refused there (`Paired.ends`). A refusal that comes too
late, at a place before the end, is none that the second stream escapes. So where the second
stream is read without an error, an error in the first one stands at its end
(`statements_cut`).

Key theorems: `Paired.compares`, `statements_cut`.
-/
import ClassScript.Proofs.Syntax.Fuel
import ClassScript.Proofs.Syntax.Joining
import ClassScript.Proofs.Syntax.Recovery

namespace ClassScript
namespace Parser

variable {α : Type} {seen : Option PlacedToken} {c c' : Cursor}

/-- The end of one stream, and what another one has in its place. -/
structure Cut where
  stop : PlacedToken
  ends : stop.token = .endOfInput
  empty : stop.span = .point stop.span.stop
  more : List Lexeme

namespace Cut

variable {k : Cut}

/-- The cursor with the tokens `ts` ahead and then the end. -/
def short (k : Cut) (ts : List PlacedToken) (c : Cursor) : Cursor :=
  { c with rest := ts.map .ok ++ [.ok k.stop] }

/-- The cursor with the tokens `ts` ahead and then the rest of the other stream. -/
def long (k : Cut) (ts : List PlacedToken) (c : Cursor) : Cursor :=
  { c with rest := ts.map .ok ++ k.more }

theorem length_short (k : Cut) (ts : List PlacedToken) (c : Cursor) :
    (k.short ts c).rest.length = ts.length + 1 := by
  rw [short, List.length_append, List.length_map, List.length_singleton]

theorem length_long (k : Cut) (ts : List PlacedToken) (c : Cursor) :
    (k.long ts c).rest.length = ts.length + k.more.length := by
  rw [long, List.length_append, List.length_map]

/-- The end is ahead, or it has been read. -/
def AtEnd (k : Cut) (c : Cursor) : Prop :=
  c.rest = [.ok k.stop] ∨ c.rest = [] ∧ .point c.last.stop = k.stop.span

theorem AtEnd.spent (h : k.AtEnd c) : Spent c := by
  rcases h with h | ⟨h, -⟩
  · exact .inr ⟨k.stop, h, k.ends⟩
  · exact .inl h

theorem AtEnd.of_eq (h : k.AtEnd c) (hr : c'.rest = c.rest) (hl : c'.last = c.last) :
    k.AtEnd c' := by
  unfold AtEnd at h ⊢
  rwa [hr, hl]

/-- A token that is looked at there stands at the end. -/
theorem AtEnd.peek (h : k.AtEnd c) : ∃ t, peek c = .ok t c ∧ t.span = k.stop.span := by
  unfold Parser.peek
  rcases h with h | ⟨h, hl⟩
  · exact ⟨k.stop, by rw [h], rfl⟩
  · exact ⟨_, by rw [h], hl⟩

theorem AtEnd.next (h : k.AtEnd c) : ∃ t c', next c = .ok t c' ∧ k.AtEnd c' := by
  unfold Parser.next
  rcases h with h | ⟨h, hl⟩
  · exact ⟨_, _, by rw [h], .inr ⟨rfl, k.empty.symm⟩⟩
  · rw [h]
    exact ⟨_, _, rfl, .inr ⟨rfl, hl⟩⟩

/-- An answer at the end: nothing more is read, and what is refused is refused there. -/
inductive Ends (k : Cut) : Reply α → Prop where
  | ok {a : α} {c : Cursor} : k.AtEnd c → Ends k (.ok a c)
  | refused {r : Refusal} {c : Cursor} : r.span = k.stop.span → Ends k (.refused r c)
  | exhausted : Ends k .exhausted

/-- How a parser answers on the two streams. -/
inductive Compares (k : Cut) : Reply α → Reply α → Prop where
  /-- They are abreast. -/
  | abreast {a : α} {c : Cursor} (ts : List PlacedToken) :
      Compares k (.ok a (k.short ts c)) (.ok a (k.long ts c))
  /-- The first one is at its end. -/
  | ended {r r' : Reply α} : Ends k r → Compares k r r'
  /-- The second one is refused. -/
  | rejected {r r' : Reply α} : (∀ a c, r' ≠ .ok a c) → Compares k r r'

end Cut

variable {k : Cut} {p p' : Parser α} {ts : List PlacedToken}

/-- **At the end a parser reads nothing more, and what it refuses, it refuses there.** -/
theorem Paired.ends (h : Paired seen p p') (hseen : ∀ t, seen = some t → t.span = k.stop.span)
    (hc : k.AtEnd c) : k.Ends (p c) := by
  induction h generalizing c with
  | pure a => exact .ok hc
  | @bind α β seen p p' g g' _ _ ihp ihg =>
    have hp := ihp hseen hc
    show k.Ends (Parser.bind p g c)
    unfold Parser.bind
    generalize p c = reply at hp
    cases hp with
    | ok hc₁ => exact ihg _ (by simp) hc₁
    | refused hr => exact .refused hr
    | exhausted => exact .exhausted
  | exhausted => exact .exhausted
  | look _ ih =>
    obtain ⟨t, hpeek, ht⟩ := hc.peek
    show k.Ends (Parser.bind _ _ c)
    unfold Parser.bind
    rw [hpeek]
    exact ih t (by rintro t' ⟨⟩; exact ht) hc
  | next =>
    obtain ⟨t, c', hnext, hc'⟩ := hc.next
    rw [hnext]
    exact .ok hc'
  | last => exact .ok hc
  | mint | enter | leave => exact .ok (hc.of_eq rfl rfl)
  | @refuse α t problem => exact .refused (hseen t rfl)
  | @tooLate α β seen p p' problem place _ hfinds ih =>
    have hp := ih hseen hc
    show k.Ends (Parser.bind p _ c)
    unfold Parser.bind
    generalize hreply : p c = reply at hp
    cases hp with
    | ok => exact absurd hc.spent (hfinds hreply)
    | refused hr => exact .refused hr
    | exhausted => exact .exhausted
  | unseen _ ih => exact ih (by simp) hc

/-- **Two streams with common tokens are read in the same way,** up to the end of the first one. -/
theorem Paired.compares (h : Paired seen p p') (hseen : ∀ t, seen = some t → ts.head? = some t) :
    k.Compares (p (k.short ts c)) (p' (k.long ts c)) := by
  induction h generalizing c ts with
  | pure a => exact .abreast ts
  | @bind α β seen p p' g g' _ hg ihp ihg =>
    have hp := ihp (c := c) hseen
    show k.Compares (Parser.bind p g _) (Parser.bind p' g' _)
    unfold Parser.bind
    generalize p (k.short ts c) = r, p' (k.long ts c) = r' at hp
    cases hp with
    | abreast us => exact ihg _ (by simp)
    | ended hr =>
      refine .ended ?_
      cases hr with
      | ok hc => exact (hg _).ends (by simp) hc
      | refused hr => exact .refused hr
      | exhausted => exact .exhausted
    | rejected hr' =>
      refine .rejected fun b c₁ => ?_
      cases r' with
      | ok a c₂ => exact absurd rfl (hr' a c₂)
      | refused | exhausted => simp
  | exhausted => exact .ended .exhausted
  | @look α seen g g' hg ih =>
    cases ts with
    | nil =>
      -- the first one looks at its end
      have hlook : Paired none (peek >>= g) (peek >>= g') := .look hg
      exact .ended (hlook.ends (by simp) (.inl rfl))
    | cons t ts =>
      show k.Compares (g t (k.short (t :: ts) c)) (g' t (k.long (t :: ts) c))
      exact ih t (by rintro t' ⟨⟩; rfl)
  | next =>
    cases ts with
    | nil =>
      have hnext : Paired none Parser.next Parser.next := .next
      exact .ended (hnext.ends (by simp) (.inl rfl))
    | cons t ts => exact .abreast (c := { c with last := t.span }) ts
  | last => exact .abreast ts
  | mint span => exact .abreast (c := { c with nextId := c.nextId + 1 }) ts
  | enter K => exact .abreast (c := { c with constructs := K :: c.constructs }) ts
  | leave => exact .abreast (c := { c with constructs := c.constructs.tail }) ts
  | refuse => exact .rejected fun _ _ h => by cases h
  | @tooLate α β seen p p' problem place _ _ _ =>
    refine .rejected fun b c₁ h => ?_
    obtain ⟨a, c₂, -, hrefuse⟩ := bind_eq_ok.mp h
    cases hrefuse
  | unseen _ ih => exact ih (by simp)

end Parser

namespace Parse

variable {f f' : Nat} {k : Parser.Cut}

/-- At the end of the input nothing is left to be refused. -/
theorem statements_atEnd {n : Nat} {c : Cursor} (h : k.AtEnd c) : (statements f n c).errors = [] := by
  have hends : endsAt c.rest 0 = true := by
    rcases h with h | ⟨h, -⟩
    · rw [h]
      exact Parser.isEnd_iff.mpr k.ends
    · rw [h]
      rfl
  rw [errors, statements_ended hends]
  rfl

/-- **An error in a text that is cut off stands at its end,** if the whole text has none. -/
theorem statements_cut (hf : f ≤ f') : ∀ (n n' : Nat) (ts : List PlacedToken) (c : Cursor),
    ts.length < n → ts.length + k.more.length < n' → 3 * (ts.length + 1) + 6 ≤ f →
    3 * (ts.length + k.more.length) + 6 ≤ f' → (statements f' n' (k.long ts c)).errors = [] →
    (statements f n (k.short ts c)).errors = [] ∨
      ∃ e ∈ (statements f n (k.short ts c)).errors, e.span = k.stop.span
  | n + 1, n', [], c, _, _, _, _, _ => .inl (statements_atEnd (.inl rfl))
  | n + 1, n' + 1, t :: ts, c, hn, hn', hfuel, hfuel', he => by
    have hshort : (k.short (t :: ts) c).rest = .ok t :: (ts.map .ok ++ [.ok k.stop]) := rfl
    have hlong : (k.long (t :: ts) c).rest = .ok t :: (ts.map .ok ++ k.more) := rfl
    by_cases ht : t.token = .endOfInput
    · left
      rw [errors, statements_end hshort ht]
      rfl
    have hanswers := Parser.declaration_answers f _ hfuel
      { k.short (t :: ts) c with constructs := [.topLevel] } (Nat.le_of_eq (k.length_short _ c))
    have hanswers' := Parser.declaration_answers f' _ hfuel'
      { k.long (t :: ts) c with constructs := [.topLevel] } (Nat.le_of_eq (k.length_long _ c))
    have hcompares : k.Compares
        (Parser.declaration f (k.short (t :: ts) { c with constructs := [.topLevel] }))
        (Parser.declaration f' (k.long (t :: ts) { c with constructs := [.topLevel] })) :=
      (Parser.declaration_paired hf).compares (by simp)
    change k.Compares (Parser.declaration f { k.short (t :: ts) c with constructs := [.topLevel] })
      (Parser.declaration f' { k.long (t :: ts) c with constructs := [.topLevel] }) at hcompares
    generalize hr : Parser.declaration f { k.short (t :: ts) c with constructs := [.topLevel] } = r
      at hcompares hanswers
    generalize hr' : Parser.declaration f' { k.long (t :: ts) c with constructs := [.topLevel] } = r'
      at hcompares hanswers'
    cases hcompares with
    | @abreast s c₁ us =>
      have heats := Parser.Eats.declaration f hr
      change (k.short us c₁).rest.length < (k.short (t :: ts) c).rest.length at heats
      rw [k.length_short, k.length_short] at heats
      rw [List.length_cons] at heats hn hn' hfuel hfuel'
      rw [errors, statements_ok hshort ht hr]
      rw [errors, statements_ok hlong ht hr'] at he
      exact statements_cut hf n n' us c₁ (by omega) (by omega) (by omega) (by omega) he
    | ended hends =>
      cases hends with
      | ok hc₁ =>
        left
        rw [errors, statements_ok hshort ht hr]
        exact statements_atEnd hc₁
      | @refused refusal c₁ hspan =>
        right
        rw [statements_recovered hshort ht hr]
        exact ⟨_, List.mem_cons_self, hspan⟩
      | exhausted => exact absurd rfl hanswers
    | rejected hnever =>
      cases r' with
      | ok s c₁ => exact absurd rfl (hnever s c₁)
      | refused refusal c₁ => exact absurd he (statements_refused hlong ht hr')
      | exhausted => exact absurd rfl hanswers'

end Parse

/-- The same of all lexemes of a text. -/
theorem parseLexemes_cut {k : Parser.Cut} {ts : List PlacedToken} {firstId : Nat} (hmore : k.more ≠ [])
    (h : (parseLexemes firstId (ts.map .ok ++ k.more)).errors = []) :
    (parseLexemes firstId (ts.map .ok ++ [.ok k.stop])).errors = [] ∨
      ∃ e ∈ (parseLexemes firstId (ts.map .ok ++ [.ok k.stop])).errors, e.span = k.stop.span := by
  have hpos := List.length_pos_iff.mpr hmore
  have hfuel := le_parseFuel (ts.length + 1)
  have hfuel' := le_parseFuel (ts.length + k.more.length)
  have hle : parseFuel (ts.length + 1) ≤ parseFuel (ts.length + k.more.length) :=
    parseFuel_mono (by omega)
  unfold parseLexemes at h ⊢
  rw [List.length_append, List.length_map] at h ⊢
  exact Parse.statements_cut hle _ _ ts { rest := [], nextId := firstId } (by omega) (by omega)
    (by omega) (by omega) h

end ClassScript
