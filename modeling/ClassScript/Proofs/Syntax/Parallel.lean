/-
# Parsing a text as the front of another one

Two texts begin with the same tokens, which stand in other places in the second one, and
what is the end of the first one is any token but `else` in the second (`Fork`). A parser
of the second text runs along with one of the first (`Along`): where that succeeds, it
succeeds as well, with a value that differs in its spans alone, and the cursors are abreast
again. A parser that has looked at the end of the first text cannot keep up; but an
expression is always followed by a token, and a statement ends with one. So a statement
that is the last one of the first text is read in the second one, too
(`declaration_along`).

Key theorem: `declaration_along`.
-/
import ClassScript.Proofs.Syntax.Acceptance
import ClassScript.Proofs.Syntax.Forward
import ClassScript.Proofs.Variant.Tree

namespace ClassScript

namespace Parser

/-! ### Two texts with the same front -/

/-- Two texts with the same tokens at their front. -/
structure Fork where
  /-- What becomes of a span of the first text. -/
  move : Span → Span
  join : ∀ s t, move (s.join t) = (move s).join (move t)
  /-- The end of the first text. -/
  stop : PlacedToken
  ends : stop.token = .endOfInput
  /-- The token in its place and what is behind it. -/
  other : PlacedToken
  noElse : other.token ≠ .symbol .elseWord
  others : List Lexeme

namespace Fork

variable {k : Fork}

/-- The same token in the second text. Lines are not looked at. -/
def SameToken (k : Fork) (t t' : PlacedToken) : Prop :=
  ∃ line, t' = ⟨t.token, k.move t.span, line⟩

/-- The cursors have the same common tokens ahead. The spans of the last tokens read correspond, if
they have read some (`under`). -/
structure Abreast (k : Fork) (under : Bool) (c c' : Cursor) : Prop where
  rest : ∃ ts ts' : List PlacedToken, c.rest = ts.map .ok ++ [.ok k.stop] ∧
    c'.rest = ts'.map .ok ++ .ok k.other :: k.others ∧ List.Forall₂ k.SameToken ts ts' ∧
    ∀ t ∈ ts, t.token ≠ .endOfInput
  last : under = true → c'.last = k.move c.last
  constructs : c'.constructs = c.constructs
  nextId : c'.nextId = c.nextId

end Fork

/-- Nothing is ahead but the end of the input. -/
def Spent (c : Cursor) : Prop := c.rest = [] ∨ ∃ t, c.rest = [.ok t] ∧ t.token = .endOfInput

variable {α β γ δ : Type} {k : Fork} {under weak : Bool} {c c' : Cursor}

namespace Fork.Abreast

theorem any (h : k.Abreast under c c') : k.Abreast false c c' :=
  ⟨h.rest, by simp, h.constructs, h.nextId⟩

/-- A cursor that is not spent has a common token ahead. -/
theorem front (h : k.Abreast under c c') (hs : ¬ Spent c) : ∃ t line rest rest',
    c.rest = .ok t :: rest ∧ c'.rest = .ok ⟨t.token, k.move t.span, line⟩ :: rest' ∧
      t.token ≠ .endOfInput ∧ ∀ {d d' : Cursor}, d.rest = rest → d'.rest = rest' → d'.last = k.move d.last →
        d'.constructs = d.constructs → d'.nextId = d.nextId → k.Abreast true d d' := by
  obtain ⟨ts, ts', hr, hr', hts, hin⟩ := h.rest
  cases hts with
  | nil => exact absurd (.inr ⟨k.stop, hr, k.ends⟩) hs
  | @cons t t' ts ts' ht hts =>
    obtain ⟨line, rfl⟩ := ht
    rw [List.forall_mem_cons] at hin
    exact ⟨t, line, _, _, hr, hr', hin.1, fun hd hd' hl hc hi =>
      ⟨⟨ts, ts', hd, hd', hts, hin.2⟩, fun _ => hl, hc, hi⟩⟩

/-- Where the first cursor is spent, the second one has what is behind the common tokens ahead. -/
theorem spent (h : k.Abreast under c c') (hs : Spent c) :
    c.rest = [.ok k.stop] ∧ c'.rest = .ok k.other :: k.others := by
  obtain ⟨ts, ts', hr, hr', hts, -⟩ := h.rest
  cases hts with
  | nil => exact ⟨hr, hr'⟩
  | cons =>
    rcases hs with hs | ⟨t, hs, -⟩
    · simp [hs] at hr
    · simp [hs] at hr

theorem inConstruct (h : k.Abreast under c c') {ks ks' : List Construct} (hk : ks' = ks) :
    k.Abreast under { c with constructs := ks } { c' with constructs := ks' } :=
  ⟨h.rest, h.last, hk, h.nextId⟩

end Fork.Abreast

theorem Spent.ahead (h : Spent c) (hc : Ahead c c') : Spent c' := by
  rcases h with h | ⟨t, h, ht⟩
  · exact .inl (List.suffix_nil.mp (h ▸ hc.rest))
  · have hrest := hc.rest
    rw [h, List.suffix_cons_iff] at hrest
    rcases hrest with hrest | hrest
    · exact .inr ⟨t, hrest, ht⟩
    · exact .inl (List.suffix_nil.mp hrest)

/-- What has read a token of the text has found it. -/
theorem Moves.unspent {w : List Token} {ids : List Nat} (h : Moves c w ids c') (hne : w ≠ [])
    (hw : Grammar.Inner w) : ¬ Spent c := by
  obtain ⟨used, hr, rfl⟩ := h.rest
  rcases used with - | ⟨u, used⟩
  · exact absurd rfl hne
  · rintro (h | ⟨t, h, ht⟩)
    · simp [h] at hr
    · rw [h] at hr
      obtain ⟨rfl, -⟩ : t = u ∧ _ := by simpa using hr
      exact hw t.token (by simp) ht

theorem peek_ahead {t : PlacedToken} {rest : List Lexeme} (h : c.rest = .ok t :: rest) :
    peek c = .ok t c := by
  rw [peek, h]

theorem next_ahead {t : PlacedToken} {rest : List Lexeme} (h : c.rest = .ok t :: rest) :
    next c = .ok t { c with rest := rest, last := t.span } := by
  simp only [next, h]

/-! ### Parsers that find something -/

/-- The parser fails where nothing is ahead. -/
def Finds (p : Parser α) : Prop := ∀ ⦃c a c'⦄, p c = .ok a c' → ¬ Spent c

namespace Finds

variable {p : Parser α} {f : α → Parser β}

theorem first (h : Finds p) : Finds (p >>= f) := by
  intro c b c' hc
  obtain ⟨a, c₁, hp, -⟩ := bind_eq_ok.mp hc
  exact h hp

/-- What is not ahead behind a parser was not ahead before it. -/
theorem second (hb : Built p) (h : ∀ a, Finds (f a)) : Finds (p >>= f) := by
  intro c b c' hc hs
  obtain ⟨a, c₁, hp, hf⟩ := bind_eq_ok.mp hc
  have hahead := hb.forward c
  rw [hp] at hahead
  exact h a hf (hs.ahead hahead)

theorem expect (s : Symbol) : Finds (expect s) := fun _ _ _ h =>
  (expect_moves h).unspent (by simp) (.symbol s .nil)

theorem expectName : Finds expectName := fun _ d _ h =>
  (expectName_moves h).unspent (by simp) (.name d.name .nil)

theorem within {K : Construct} (h : Finds p) : Finds (within K p) := by
  intro c a c' hc
  obtain ⟨c₁, hp, -⟩ := within_eq_ok.mp hc
  exact fun hs => h hp hs

theorem sentence {K : Grammar.Category} {q : Parser Stmt} (h : ReadsStmt K q) : Finds q := by
  intro c s c' hc
  obtain ⟨w, ph, hm, hs, -⟩ := h hc
  exact hm.unspent hs.ne_nil hs.inner

end Finds

/-! ### Parsers that run along -/

/-- Where `p` succeeds on the first text, `p'` does on the second, and their values are related. The
cursors have read a token (`under`), or need not have; a `weak` parser may have looked at the end of
the first text, and then nothing is said. -/
def Along (k : Fork) (under weak : Bool) (R : α → β → Prop) (p : Parser α) (p' : Parser β) : Prop :=
  ∀ ⦃c c' a c₁⦄, k.Abreast under c c' → p c = .ok a c₁ → (weak = true → ¬ Spent c₁) →
    ∃ b c₁', p' c' = .ok b c₁' ∧ R a b ∧ k.Abreast true c₁ c₁'

namespace Along

variable {R : α → β → Prop} {S : γ → δ → Prop} {p : Parser α} {p' : Parser β} {f : α → Parser γ}
  {f' : β → Parser δ}

theorem started (h : Along k false weak R p p') : Along k under weak R p p' :=
  fun _ _ _ _ hc hp hw => h hc.any hp hw

theorem pure {a : α} {b : β} (h : R a b) : Along k true weak R (pure a) (pure b) := by
  intro c c' x c₁ hc hp _
  obtain ⟨rfl, rfl⟩ := pure_eq_ok.mp hp
  exact ⟨b, c', rfl, h, hc⟩

theorem fails (h : ∀ c a c₁, p c ≠ .ok a c₁) : Along k under weak R p p' :=
  fun c _ a c₁ _ hp _ => absurd hp (h c a c₁)

theorem refuse {problem : SyntaxProblem} {span : Span} :
    Along k under weak R (refuse problem span) p' :=
  fails fun _ _ _ h => refuse_eq_ok.mp h

theorem exhausted : Along k under weak R exhausted p' := fails fun _ _ _ h => exhausted_eq_ok.mp h

/-- **One parser after the other.** -/
theorem bind (hp : Along k under false R p p') (hf : ∀ a b, R a b → Along k true weak S (f a) (f' b)) :
    Along k under weak S (p >>= f) (p' >>= f') := by
  intro c c' x c₂ hc hx hw
  obtain ⟨a, c₁, ha, hx⟩ := bind_eq_ok.mp hx
  obtain ⟨b, c₁', hb, hab, hc₁⟩ := hp hc ha (by simp)
  obtain ⟨y, c₂', hy, hxy, hc₂⟩ := hf a b hab hc₁ hx hw
  exact ⟨y, c₂', bind_eq_ok.mpr ⟨b, c₁', hb, hy⟩, hxy, hc₂⟩

/-- A weak parser, if something is found behind it. -/
theorem bind_found (hp : Along k under true R p p') (hfound : ∀ a, Finds (f a))
    (hf : ∀ a b, R a b → Along k true weak S (f a) (f' b)) :
    Along k under weak S (p >>= f) (p' >>= f') := by
  intro c c' x c₂ hc hx hw
  obtain ⟨a, c₁, ha, hx⟩ := bind_eq_ok.mp hx
  obtain ⟨b, c₁', hb, hab, hc₁⟩ := hp hc ha fun _ => hfound a hx
  obtain ⟨y, c₂', hy, hxy, hc₂⟩ := hf a b hab hc₁ hx hw
  exact ⟨y, c₂', bind_eq_ok.mpr ⟨b, c₁', hb, hy⟩, hxy, hc₂⟩

/-- A weak parser in front of another one. -/
theorem bind_weak (hp : Along k under true R p p') (hb : ∀ a, Built (f a))
    (hf : ∀ a b, R a b → Along k true true S (f a) (f' b)) :
    Along k under true S (p >>= f) (p' >>= f') := by
  intro c c' x c₂ hc hx hw
  obtain ⟨a, c₁, ha, hx⟩ := bind_eq_ok.mp hx
  have hahead := (hb a).forward c₁
  rw [hx] at hahead
  obtain ⟨b, c₁', hb', hab, hc₁⟩ := hp hc ha fun _ hs => hw rfl (hs.ahead hahead)
  obtain ⟨y, c₂', hy, hxy, hc₂⟩ := hf a b hab hc₁ hx hw
  exact ⟨y, c₂', bind_eq_ok.mpr ⟨b, c₁', hb', hy⟩, hxy, hc₂⟩

theorem within {K : Construct} (h : Along k under weak R p p') :
    Along k under weak R (within K p) (within K p') := by
  intro c c' a c₂ hc hrun hw
  obtain ⟨c₁, hp, rfl⟩ := within_eq_ok.mp hrun
  obtain ⟨b, c₁', hp', hab, hc₁⟩ := h (hc.inConstruct (congrArg (K :: ·) hc.constructs)) hp hw
  exact ⟨b, _, within_eq_ok.mpr ⟨c₁', hp', rfl⟩, hab,
    hc₁.inConstruct (congrArg List.tail hc₁.constructs)⟩

/-! ### The steps -/

/-- Looking at a token, and going on with what is behind it. -/
theorem look {g : PlacedToken → Parser α} {g' : PlacedToken → Parser β}
    (hunspent : ∀ ⦃c a c₁⦄, (peek >>= g) c = .ok a c₁ → (weak = true → ¬ Spent c₁) → ¬ Spent c)
    (hg : ∀ t line, Along k under weak R (g t) (g' ⟨t.token, k.move t.span, line⟩)) :
    Along k under weak R (peek >>= g) (peek >>= g') := by
  intro c c' a c₁ hc hp hw
  obtain ⟨t, line, rest, rest', hr, hr', -, -⟩ := hc.front (hunspent hp hw)
  obtain ⟨u, c₀, hu, hp⟩ := bind_eq_ok.mp hp
  obtain ⟨rfl, rfl⟩ := Reply.ok.inj ((peek_ahead hr).symm.trans hu)
  obtain ⟨b, c₁', hb, hab, hc₁⟩ := hg t line hc hp hw
  exact ⟨b, c₁', bind_eq_ok.mpr ⟨_, c', peek_ahead hr', hb⟩, hab, hc₁⟩

theorem peek_weak {g : PlacedToken → Parser α} {g' : PlacedToken → Parser β}
    (hb : Built (peek >>= g))
    (hg : ∀ t line, Along k under true R (g t) (g' ⟨t.token, k.move t.span, line⟩)) :
    Along k under true R (peek >>= g) (peek >>= g') := by
  refine look (fun c a c₁ hp hw hs => hw rfl ?_) hg
  have hahead := hb.forward c
  rw [hp] at hahead
  exact hs.ahead hahead

theorem peek_found {g : PlacedToken → Parser α} {g' : PlacedToken → Parser β} (hfound : Finds (peek >>= g))
    (hg : ∀ t line, Along k under weak R (g t) (g' ⟨t.token, k.move t.span, line⟩)) :
    Along k under weak R (peek >>= g) (peek >>= g') :=
  look (fun _ _ _ hp _ => hfound hp) hg

theorem next : Along k under true k.SameToken next next := by
  intro c c' a c₁ hc hp hw
  have hunspent : ¬ Spent c := by
    intro hs
    have hahead := Built.next.forward c
    rw [hp] at hahead
    exact hw rfl (hs.ahead hahead)
  obtain ⟨t, line, rest, rest', hr, hr', -, hgo⟩ := hc.front hunspent
  obtain ⟨rfl, rfl⟩ := Reply.ok.inj ((next_ahead hr).symm.trans hp)
  exact ⟨_, _, next_ahead hr', ⟨line, rfl⟩, hgo rfl rfl rfl hc.constructs hc.nextId⟩

theorem mint {s s' : Span} (h : s' = k.move s) :
    Along k true weak (fun m m' => m' = m.mapSpan k.move) (mint s) (mint s') := by
  intro c c' m c₁ hc hp _
  simp only [Parser.mint, Reply.ok.injEq] at hp
  obtain ⟨rfl, rfl⟩ := hp
  refine ⟨_, _, rfl, ?_, hc.rest, hc.last, hc.constructs, congrArg (· + 1) hc.nextId⟩
  rw [h, hc.nextId]
  rfl

theorem last : Along k true weak (fun s s' => s' = k.move s) last last := by
  intro c c' s c₁ hc hp _
  obtain ⟨rfl, rfl⟩ := last_eq_ok.mp hp
  exact ⟨_, c', rfl, hc.last rfl, hc⟩

/-- Reading the token that was looked at. -/
theorem taken {t : PlacedToken} {line : Nat} {rest rest' : List Lexeme} {a b : α} {c₁ : Cursor}
    (hc : k.Abreast under c c') (hr : c.rest = .ok t :: rest)
    (hr' : c'.rest = .ok ⟨t.token, k.move t.span, line⟩ :: rest')
    (hgo : ∀ {d d' : Cursor}, d.rest = rest → d'.rest = rest' → d'.last = k.move d.last →
      d'.constructs = d.constructs → d'.nextId = d.nextId → k.Abreast true d d')
    (h : (Parser.next >>= fun _ => Pure.pure a) c = .ok b c₁) : a = b ∧
      ∀ {v : β}, ∃ c₁', (Parser.next >>= fun _ => Pure.pure v) c' = .ok v c₁' ∧ k.Abreast true c₁ c₁' := by
  obtain ⟨u, c₂, hu, h⟩ := bind_eq_ok.mp h
  obtain ⟨rfl, rfl⟩ := Reply.ok.inj ((next_ahead hr).symm.trans hu)
  obtain ⟨rfl, rfl⟩ := pure_eq_ok.mp h
  exact ⟨rfl, _, bind_eq_ok.mpr ⟨_, _, next_ahead hr', rfl⟩, hgo rfl rfl rfl hc.constructs hc.nextId⟩

theorem expect (s : Symbol) : Along k under weak (fun a b => b = k.move a) (expect s) (expect s) := by
  intro c c' a c₁ hc hp _
  obtain ⟨t, line, rest, rest', hr, hr', -, hgo⟩ := hc.front (Finds.expect s hp)
  obtain ⟨u, c₀, hu, hp⟩ := bind_eq_ok.mp hp
  obtain ⟨rfl, rfl⟩ := Reply.ok.inj ((peek_ahead hr).symm.trans hu)
  simp only [ite_eq_ok, refuse_eq_ok, and_false, or_false] at hp
  obtain ⟨hs, hp⟩ := hp
  obtain ⟨rfl, hread⟩ := taken hc hr hr' hgo hp
  obtain ⟨c₁', hp', hc₁⟩ := hread
  have hs' : isSymbol s ⟨t.token, k.move t.span, line⟩ = true := hs
  exact ⟨_, c₁', bind_eq_ok.mpr ⟨_, c', peek_ahead hr', by rwa [if_pos hs']⟩, rfl, hc₁⟩

theorem expectName :
    Along k under weak (fun d d' => d' = d.mapSpan k.move) expectName expectName := by
  intro c c' d c₁ hc hp _
  obtain ⟨t, line, rest, rest', hr, hr', -, hgo⟩ := hc.front (Finds.expectName hp)
  obtain ⟨u, c₀, hu, hp⟩ := bind_eq_ok.mp hp
  obtain ⟨rfl, rfl⟩ := Reply.ok.inj ((peek_ahead hr).symm.trans hu)
  obtain ⟨x, hx⟩ : ∃ x, t.token = .name x := by
    cases ht : t.token with
    | name x => exact ⟨x, rfl⟩
    | symbol | text | number | endOfInput => simp [ht, refuse_eq_ok] at hp
  simp only [hx] at hp
  obtain ⟨rfl, hread⟩ := taken hc hr hr' hgo hp
  obtain ⟨c₁', hp', hc₁⟩ := hread
  exact ⟨⟨x, k.move t.span⟩, c₁', bind_eq_ok.mpr ⟨_, c', peek_ahead hr', by simpa only [hx] using hp'⟩,
    rfl, hc₁⟩

theorem sees (s : Symbol) : Along k true true (fun b b' => b' = b) (sees s) (sees s) :=
  peek_weak (.sees s) fun _ _ => .pure rfl

theorem takeIf_unspent {s : Symbol} {o : Option Span} {c₁ : Cursor} (hc : k.Abreast true c c')
    (hs : ¬ Spent c) (h : takeIf s c = .ok o c₁) : ∃ o' c₁', Parser.takeIf s c' = .ok o' c₁' ∧
      Option.Rel (fun a b => b = k.move a) o o' ∧ k.Abreast true c₁ c₁' := by
  obtain ⟨t, line, rest, rest', hr, hr', -, hgo⟩ := hc.front hs
  obtain ⟨u, c₀, hu, h⟩ := bind_eq_ok.mp h
  obtain ⟨rfl, rfl⟩ := Reply.ok.inj ((peek_ahead hr).symm.trans hu)
  by_cases ht : isSymbol s t = true
  · have ht' : isSymbol s ⟨t.token, k.move t.span, line⟩ = true := ht
    rw [if_pos ht] at h
    obtain ⟨rfl, hread⟩ := taken hc hr hr' hgo h
    obtain ⟨c₁', hp', hc₁⟩ := hread
    exact ⟨_, c₁', bind_eq_ok.mpr ⟨_, c', peek_ahead hr', by rwa [if_pos ht']⟩, .some rfl, hc₁⟩
  · have ht' : ¬ isSymbol s ⟨t.token, k.move t.span, line⟩ = true := ht
    rw [if_neg ht] at h
    obtain ⟨rfl, rfl⟩ := pure_eq_ok.mp h
    exact ⟨none, c', bind_eq_ok.mpr ⟨_, c', peek_ahead hr', by rw [if_neg ht']; rfl⟩, .none, hc⟩

theorem takeIf (s : Symbol) :
    Along k true true (Option.Rel fun a b => b = k.move a) (takeIf s) (takeIf s) := by
  intro c c' o c₁ hc hp hw
  refine takeIf_unspent hc (fun hs => ?_) hp
  have hahead := (Built.takeIf s).forward c
  rw [hp] at hahead
  exact hw rfl (hs.ahead hahead)

theorem behind (s : Symbol) (hb : Built p) (h : Along k true true R p p') :
    Along k true true (Option.Rel R) (behind s p) (behind s p') := by
  refine .bind_weak (.takeIf s) (fun o => ?_) fun o o' ho => ?_
  · cases o with
    | none => exact .pure _
    | some => exact .bind hb fun _ => .pure _
  · cases ho with
    | none => exact .pure .none
    | some => exact .bind_weak h (fun _ => .pure _) fun _ _ hab => .pure (.some hab)

/-- Where the first text ends, the second one does not go on with an `else`. -/
theorem behindElse (h : Along k true false R p p') :
    Along k true weak (Option.Rel R) (Parser.behind .elseWord p) (Parser.behind .elseWord p') := by
  intro c c' x c₂ hc hx _
  obtain ⟨o, c₁, ho, hx⟩ := bind_eq_ok.mp hx
  obtain ⟨o', c₁', ho', hoo, hc₁⟩ : ∃ o' c₁', Parser.takeIf .elseWord c' = .ok o' c₁' ∧
      Option.Rel (fun a b => b = k.move a) o o' ∧ k.Abreast true c₁ c₁' := by
    by_cases hs : Spent c
    · obtain ⟨hr, hr'⟩ := hc.spent hs
      have hstop : ¬ isSymbol .elseWord k.stop = true := by simp [isSymbol_iff, k.ends]
      have hother : ¬ isSymbol .elseWord k.other = true := fun h => k.noElse (isSymbol_iff.mp h)
      obtain ⟨t, c₀, ht, ho⟩ := bind_eq_ok.mp ho
      obtain ⟨rfl, rfl⟩ := Reply.ok.inj ((peek_ahead hr).symm.trans ht)
      rw [if_neg hstop] at ho
      obtain ⟨rfl, rfl⟩ := pure_eq_ok.mp ho
      exact ⟨none, c', bind_eq_ok.mpr ⟨_, c', peek_ahead hr', by rw [if_neg hother]; rfl⟩, .none, hc⟩
    · exact takeIf_unspent hc hs ho
  cases hoo with
  | none =>
    obtain ⟨rfl, rfl⟩ := pure_eq_ok.mp hx
    exact ⟨none, c₁', bind_eq_ok.mpr ⟨_, _, ho', rfl⟩, .none, hc₁⟩
  | some =>
    have hsome : Along k true false (Option.Rel R) (p >>= fun a => Pure.pure (some a))
        (p' >>= fun b => Pure.pure (some b)) := .bind h fun _ _ hab => .pure (.some hab)
    obtain ⟨y, c₂', hy, hxy, hc₂⟩ := hsome hc₁ hx (by simp)
    exact ⟨y, c₂', bind_eq_ok.mpr ⟨_, _, ho', hy⟩, hxy, hc₂⟩

theorem unlessNext (s : Symbol) (hb : Built p) (h : Along k true true R p p') :
    Along k true true (Option.Rel R) (unlessNext s p) (unlessNext s p') := by
  refine .bind_weak (.sees s) (fun b => .ite (.pure _) (.bind hb fun _ => .pure _)) ?_
  rintro b - rfl
  split
  · exact .pure .none
  · exact .bind_weak h (fun _ => .pure _) fun _ _ hab => .pure (.some hab)

theorem commaList {place : α → Span} {place' : β → Span} {tooMany : SyntaxProblem} (hb : Built p)
    (h : Along k true true R p p') : ∀ {f f' : Nat} {found : List α} {found' : List β},
    f ≤ f' → List.Forall₂ R found found' → Along k true true (List.Forall₂ R)
      (commaList p place tooMany f found) (commaList p' place' tooMany f' found')
  | 0, _, _, _, _, _ => exhausted
  | f + 1, f' + 1, found, found', hf, hfound => by
    refine .bind_weak h (fun a => .ite (.refuse _ _) (.bind (.takeIf _) fun o => ?_)) fun a b hab => ?_
    · cases o with
      | none => exact .pure _
      | some => exact .commaList hb _ _
    · rw [hfound.length_eq]
      split
      · exact refuse
      · refine .bind_weak (.takeIf _) (fun o => ?_) fun o o' ho => ?_
        · cases o with
          | none => exact .pure _
          | some => exact .commaList hb _ _
        · cases ho with
          | none => exact .pure (List.rel_reverse (.cons hab hfound))
          | some => exact commaList hb h (Nat.le_of_succ_le_succ hf) (.cons hab hfound)

theorem commaListBefore (s : Symbol) {place : α → Span} {place' : β → Span}
    {tooMany : SyntaxProblem} (hb : Built p) (h : Along k true true R p p') {f f' : Nat}
    (hf : f ≤ f') : Along k true weak (fun x x' => List.Forall₂ R x.1 x'.1 ∧ x'.2 = k.move x.2)
      (commaListBefore s p place tooMany f) (commaListBefore s p' place' tooMany f') := by
  refine .bind_found (.unlessNext s (.commaList hb _ _) (commaList hb h hf .nil))
    (fun _ => .first (.expect s)) fun o o' ho => .bind (.expect s) ?_
  rintro stop - rfl
  refine .pure ⟨?_, rfl⟩
  cases ho with
  | none => exact .nil
  | some hl => exact hl

theorem upToBrace (hb : Built p) (h : Along k true false R p p') :
    ∀ {f f' : Nat} {found : List α} {found' : List β}, f ≤ f' → List.Forall₂ R found found' →
      Along k true true (List.Forall₂ R) (upToBrace p f found) (upToBrace p' f' found')
  | 0, _, _, _, _, _ => exhausted
  | f + 1, f' + 1, found, found', hf, hfound => by
    refine peek_weak (.upToBrace hb (f + 1) found) fun t line => ?_
    have hends : (isSymbol .closeBrace ⟨t.token, k.move t.span, line⟩ ||
        isEnd ⟨t.token, k.move t.span, line⟩) = (isSymbol .closeBrace t || isEnd t) := rfl
    rw [hends]
    split
    · exact .pure (List.rel_reverse hfound)
    · exact .bind h fun _ _ hab => upToBrace hb h (Nat.le_of_succ_le_succ hf) (.cons hab hfound)

end Along

/-! ### Expressions -/

/-- The same expression, with all spans moved. -/
def Fork.SameExpr (k : Fork) (e e' : Expr) : Prop := e' = e.mapSpans k.move

theorem Fork.SameExpr.span {e e' : Expr} (h : k.SameExpr e e') : e'.span = k.move e.span := by
  rw [h]
  exact Expr.span_mapSpans _ e

theorem Fork.SameExpr.join {l l' r r' : Expr} (hl : k.SameExpr l l') (hr : k.SameExpr r r') :
    l'.span.join r'.span = k.move (l.span.join r.span) := by
  rw [k.join, hl.span, hr.span]

namespace Along

variable {expression expression' unary' operand' : Parser Expr} {f f' : Nat}

section

variable {operand : Parser Expr}

theorem chain {Op : Type} {find : Token → Option Op} {build : Mark → Op → Expr → Expr → Expr}
    (hbuild : ∀ m op l r, (build m op l r).mapSpans k.move =
      build (m.mapSpan k.move) op (l.mapSpans k.move) (r.mapSpans k.move))
    (hb : Built operand) (h : Along k true true k.SameExpr operand operand') :
    ∀ {f f' : Nat} {left left' : Expr}, f ≤ f' → k.SameExpr left left' →
      Along k true true k.SameExpr (chain operand find build f left)
        (chain operand' find build f' left')
  | 0, _, _, _, _, _ => exhausted
  | f + 1, f' + 1, left, left', hf, hleft => by
    refine peek_weak (.chain hb (f + 1) left) fun t line => ?_
    dsimp only
    cases find t.token with
    | none => exact .pure hleft
    | some op =>
      refine .bind_weak .next (fun _ => .bind hb fun _ => .bind (.mint _) fun _ => .chain hb _ _)
        fun _ _ _ => .bind_weak h (fun _ => .bind (.mint _) fun _ => .chain hb _ _)
        fun right right' hright => .bind (.mint (hleft.join hright)) ?_
      rintro m - rfl
      refine chain hbuild hb h (Nat.le_of_succ_le_succ hf) ?_
      rw [Fork.SameExpr, hbuild, hleft, hright]

end

variable {unary : Parser Expr}

theorem operand (hb : Built unary) (h : Along k false true k.SameExpr unary unary') (hf : f ≤ f') :
    ∀ {under : Bool} (level : Nat),
      Along k under true k.SameExpr (operand unary f level) (operand unary' f' level)
  | _, 0 => h.started
  | _, level + 1 => by
    refine .bind_weak (operand hb h hf level) (fun _ => .chain (.operand hb f level) _ _)
      fun _ _ hleft => chain ?_ (.operand hb f level) (operand hb h hf level) hf hleft
    exact fun _ _ _ _ => rfl

theorem logicalAnd (hb : Built unary) (h : Along k false true k.SameExpr unary unary') (hf : f ≤ f') :
    Along k under true k.SameExpr (logicalAnd unary f) (logicalAnd unary' f') := by
  refine .bind_weak (operand hb h hf _) (fun _ => .chain (.operand hb f _) _ _)
    fun _ _ hleft => chain ?_ (.operand hb f _) (operand hb h hf _) hf hleft
  exact fun _ _ _ _ => rfl

theorem logicalOr (hb : Built unary) (h : Along k false true k.SameExpr unary unary') (hf : f ≤ f') :
    Along k under true k.SameExpr (logicalOr unary f) (logicalOr unary' f') := by
  refine .bind_weak (logicalAnd hb h hf) (fun _ => .chain (.logicalAnd hb f) _ _)
    fun _ _ hleft => chain ?_ (.logicalAnd hb f) (logicalAnd hb h hf) hf hleft
  exact fun _ _ _ _ => rfl

theorem leaf {s : Span} {build : Mark → Expr}
    (hbuild : ∀ m, (build m).mapSpans k.move = build (m.mapSpan k.move)) :
    Along k under true k.SameExpr (leaf s build) (leaf (k.move s) build) := by
  refine .bind_weak .next (fun _ => .bind (.mint _) fun _ => .pure _) fun _ _ _ =>
    .bind (.mint rfl) ?_
  rintro m - rfl
  exact .pure (hbuild m).symm

theorem primary (hb : Built expression) (h : Along k false true k.SameExpr expression expression') :
    Along k under true k.SameExpr (primary expression) (primary expression') := by
  refine peek_weak (.primary hb) fun t line => ?_
  dsimp only
  cases t.token with
  | number x | text x | name x => exact leaf fun _ => rfl
  | endOfInput => exact refuse
  | symbol s =>
    cases s with
    | nilWord | trueWord | falseWord | thisWord => exact leaf fun _ => rfl
    | superWord =>
      refine .bind (R := fun d d' => d' = d.mapSpan k.move) (.within ?_) ?_
      · exact .bind_found .next (fun _ => .first (.expect _)) fun _ _ _ =>
          .bind (.expect _) fun _ _ _ => .expectName
      · rintro d - rfl
        refine .bind (.mint (k.join _ _).symm) ?_
        rintro m - rfl
        exact .pure rfl
    | openParen =>
      refine .bind (R := fun x x' => k.SameExpr x.1 x'.1 ∧ x'.2 = k.move x.2) (.within ?_) ?_
      · refine .bind_found .next (fun _ => .second hb fun _ => .first (.expect _)) fun _ _ _ =>
          .bind_found h.started (fun _ => .first (.expect _)) fun _ _ he => .bind (.expect _) ?_
        exact fun _ _ hs => .pure ⟨he, hs⟩
      · rintro ⟨e, stop⟩ ⟨e', stop'⟩ ⟨rfl, rfl⟩
        refine .bind (.mint (k.join _ _).symm) ?_
        rintro m - rfl
        exact .pure rfl
    | _ => exact refuse

theorem suffixes (hb : Built expression) (h : Along k false true k.SameExpr expression expression') :
    ∀ {f f' : Nat} {e e' : Expr}, f ≤ f' → k.SameExpr e e' →
      Along k true true k.SameExpr (suffixes expression f e) (suffixes expression' f' e')
  | 0, _, _, _, _, _ => exhausted
  | f + 1, f' + 1, e, e', hf, he => by
    refine peek_weak (.suffixes hb (f + 1) e) fun t line => ?_
    dsimp only
    cases t.token with
    | number | text | name | endOfInput => exact .pure he
    | symbol s =>
      cases s with
      | openParen =>
        refine .bind_weak (.within (.bind_weak .next (fun _ => .arguments hb f) fun _ _ _ =>
          commaListBefore _ hb h.started (Nat.le_of_succ_le_succ hf))) (fun _ =>
            .bind (.mint _) fun _ => .suffixes hb _ _) ?_
        rintro ⟨args, stop⟩ ⟨args', stop'⟩ ⟨hargs, rfl⟩
        refine .bind (.mint ?_) ?_
        · rw [k.join, he.span]
        · rintro m - rfl
          refine suffixes hb h (Nat.le_of_succ_le_succ hf) ?_
          rw [he, eq_map_of_forall₂ hargs, ← Expr.mapSpansOf_eq_map]
          rfl
      | dot =>
        refine .bind_weak (.within (.bind_weak .next (fun _ => .expectName) fun _ _ _ => .expectName))
          (fun _ => .bind (.mint _) fun _ => .suffixes hb _ _) ?_
        rintro d - rfl
        refine .bind (.mint ?_) ?_
        · rw [k.join, he.span]
          rfl
        · rintro m - rfl
          refine suffixes hb h (Nat.le_of_succ_le_succ hf) ?_
          rw [he]
          rfl
      | _ => exact .pure he

theorem call (hb : Built expression) (h : Along k false true k.SameExpr expression expression')
    (hf : f ≤ f') : Along k under true k.SameExpr (call expression f) (call expression' f') :=
  .bind_weak (primary hb h) (fun _ => .suffixes hb _ _) fun _ _ he => suffixes hb h hf he

theorem assignTo {target target' value value' : Expr} {sign sign' : Span}
    (ht : k.SameExpr target target') (hv : k.SameExpr value value') :
    Along k true weak (fun b b' => ∀ m, b' (m.mapSpan k.move) = (b m).mapSpans k.move)
      (assignTo target sign value) (assignTo target' sign' value') := by
  rw [ht, hv]
  cases target with
  | «variable» | get => exact .pure fun _ => rfl
  | _ => exact refuse

end Along

mutual

theorem expression_along : ∀ {f f' : Nat}, f ≤ f' →
    Along k false true k.SameExpr (expression f) (expression f')
  | 0, _, _ => .exhausted
  | f + 1, f' + 1, hf => by
    have h := (assignment_along (Nat.le_of_succ_le_succ hf)).within (K := .expr)
    simpa only [expression, staged_eq] using h

theorem assignment_along : ∀ {f f' : Nat}, f ≤ f' →
    Along k false true k.SameExpr (assignment f) (assignment f')
  | 0, _, _ => .exhausted
  | f + 1, f' + 1, hf => by
    have hle := Nat.le_of_succ_le_succ hf
    have hu := built_unary f
    simp only [assignment, staged_eq]
    refine .bind_weak (.logicalOr hu (unary_along hle) hle) (fun _ => .bind (.takeIf _) ?_)
      fun target target' ht => .bind_weak (.takeIf .equal) ?_ fun o o' ho => ?_
    rotate_left 2
    · cases ho with
      | none => exact .pure ht
      | some hs =>
        refine .bind_weak (R := fun x x' => (∀ m, x'.1 (m.mapSpan k.move) = (x.1 m).mapSpans k.move) ∧
          x'.2 = k.move x.2) (.within (.bind_weak (assignment_along hle).started
            (fun _ => .bind (.assignTo _ _ _) fun _ => .pure _) fun value value' hv =>
              .bind (.assignTo ht hv) fun _ _ hbuild => .pure ⟨hbuild, ht.join hv⟩))
          (fun _ => .bind (.mint _) fun _ => .pure _) ?_
        rintro ⟨build, span⟩ ⟨build', span'⟩ ⟨hbuild, rfl⟩
        refine .bind (.mint rfl) ?_
        rintro m - rfl
        exact .pure (hbuild m)
    -- what is behind the target is built of parsers
    all_goals
      rintro (_ | sign)
      · exact .pure _
      · exact .bind (.within (.bind (built_assignment f) fun _ => .bind (.assignTo _ _ _) fun _ =>
          .pure _)) fun _ => .bind (.mint _) fun _ => .pure _

theorem unary_along : ∀ {f f' : Nat}, f ≤ f' → Along k false true k.SameExpr (unary f) (unary f')
  | 0, _, _ => .exhausted
  | f + 1, f' + 1, hf => by
    have hle := Nat.le_of_succ_le_succ hf
    have hb := built_unary (f + 1)
    simp only [unary, staged_eq] at hb ⊢
    refine .peek_weak hb fun t line => ?_
    dsimp only
    cases UnaryOp.ofToken? t.token with
    | none => exact .call (built_expression f) (expression_along hle) hle
    | some op =>
      refine .bind_weak .next (fun _ => .bind (built_unary f) fun _ => .bind (.mint _) fun _ => .pure _)
        fun u u' hu => .bind_weak (unary_along hle).started (fun _ => .bind (.mint _) fun _ => .pure _)
          fun e e' he => .bind (.mint ?_) ?_
      · rw [k.join, he.span]
      · rintro m - rfl
        rw [he]
        exact .pure rfl

end

/-! ### Statements -/

/-- The same statement, with all spans moved. -/
def Fork.SameStmt (k : Fork) (s s' : Stmt) : Prop := s' = s.mapSpans k.move

/-- A `for` statement is moved with its parts. -/
theorem mapSpans_forLoop (g : Span → Span) (span : Span) (init : Option Stmt) (condition : Expr)
    (increment : Option Expr) (body : Stmt) :
    (Stmt.forLoop span init condition increment body).mapSpans g =
      .forLoop (g span) (init.map (Stmt.mapSpans g)) (condition.mapSpans g)
        (increment.map (Expr.mapSpans g)) (body.mapSpans g) := by
  cases init <;> cases increment <;>
    simp [Stmt.forLoop, Stmt.mapSpans, Stmt.mapSpansOf, Stmt.span_mapSpans, Expr.span_mapSpans]

theorem mapSpans_branch (g : Span → Span) (span : Span) (condition : Expr) (yes : Stmt)
    (no : Option Stmt) : (Stmt.branch span condition yes no).mapSpans g =
      .branch (g span) (condition.mapSpans g) (yes.mapSpans g) (no.map (Stmt.mapSpans g)) := by
  cases no <;> rfl

theorem Finds.function {declaration : Parser Stmt} {f : Nat} : Finds (function declaration f) :=
  .within (.first .expectName)

namespace Along

variable {expression expression' : Parser Expr} {declaration declaration' statement statement' : Parser Stmt}
  {f f' : Nat}

section

variable (hb : Built declaration) (h : Along k true false k.SameStmt declaration declaration')
  (hf : f ≤ f')

include hb h hf

theorem block : Along k under weak (List.Forall₂ k.SameStmt) (block declaration f)
    (block declaration' f') :=
  .within (.bind (.expect _) fun _ _ _ => .bind_found (.upToBrace hb h hf .nil)
    (fun _ => .first (.expect _)) fun _ _ hbody => .bind (.expect _) fun _ _ _ => .pure hbody)

theorem function : Along k under weak (fun d d' => d' = d.mapSpans k.move) (function declaration f)
    (function declaration' f') := by
  refine .within (.bind .expectName ?_)
  rintro x - rfl
  refine .bind (.expect _) fun _ _ _ => .bind (.commaListBefore _ .expectName .expectName hf) ?_
  rintro ⟨params, _⟩ ⟨params', _⟩ ⟨hparams, -⟩
  refine .bind (block hb h hf) fun body body' hbody => .pure ?_
  have hparams' : params' = params.map (Declared.mapSpan k.move) := eq_map_of_forall₂ hparams
  rw [hparams', eq_map_of_forall₂ hbody, ← Stmt.mapSpansOf_eq_map]
  rfl

theorem classDecl : Along k under weak k.SameStmt (classDecl declaration f)
    (classDecl declaration' f') := by
  refine .within (.bind (.expect _) ?_)
  rintro start - rfl
  refine .bind .expectName ?_
  rintro x - rfl
  have hparent : Along k true true (fun u u' => u' = u.mapSpan k.move) superclass superclass := by
    refine .bind .expectName ?_
    rintro y - rfl
    refine .bind (.mint rfl) ?_
    rintro m - rfl
    exact .pure rfl
  refine .bind_found (.behind _ .superclass hparent) (fun _ => .first (.expect _))
    fun parent parent' hparent => .bind (.expect _) fun _ _ _ =>
      .bind_found (.upToBrace (.function hb f) (function hb h hf) hf .nil)
        (fun _ => .first (.expect _)) fun methods methods' hmethods => .bind (.expect _) ?_
  rintro stop - rfl
  refine .pure ?_
  rw [Fork.SameStmt, eq_map_of_rel hparent, eq_map_of_forall₂ hmethods,
    ← FunctionDecl.mapSpansOf_eq_map, ← k.join]
  rfl

theorem funDecl : Along k under weak k.SameStmt (funDecl declaration f)
    (funDecl declaration' f') := by
  refine .bind_found .next (fun _ => .first .function) ?_
  rintro start - ⟨line, rfl⟩
  refine .bind (function hb h hf) ?_
  rintro d - rfl
  refine .bind .last ?_
  rintro stop - rfl
  refine .pure ?_
  rw [Fork.SameStmt, ← k.join]
  rfl

theorem blockStmt : Along k under weak k.SameStmt (blockStmt declaration f)
    (blockStmt declaration' f') := by
  refine .peek_found (.second .peek fun _ => .first (.within (.first (.expect _)))) fun t line => ?_
  refine .bind (block hb h hf) fun body body' hbody => .bind .last ?_
  rintro stop - rfl
  refine .pure ?_
  rw [Fork.SameStmt, eq_map_of_forall₂ hbody, ← Stmt.mapSpansOf_eq_map, ← k.join]
  rfl

end

section

variable (hb : Built expression) (h : Along k false true k.SameExpr expression expression')

include hb h

theorem varDecl : Along k under weak k.SameStmt (varDecl expression) (varDecl expression') := by
  refine .within (.bind (.expect _) ?_)
  rintro start - rfl
  refine .bind .expectName ?_
  rintro x - rfl
  refine .bind_found (.behind _ hb h.started) (fun _ => .first (.expect _))
    fun init init' hinit => .bind (.expect _) ?_
  rintro stop - rfl
  refine .pure ?_
  rw [Fork.SameStmt, eq_map_of_rel hinit, ← k.join]
  rfl

omit hb in
theorem exprStmt : Along k under weak k.SameStmt (exprStmt expression) (exprStmt expression') := by
  refine .within (.bind_found h.started (fun _ => .first (.expect _)) fun e e' he => .bind (.expect _) ?_)
  rintro stop - rfl
  refine .pure ?_
  rw [Fork.SameStmt, he, Expr.span_mapSpans, ← k.join]
  rfl

omit hb in
theorem printStmt : Along k under weak k.SameStmt (printStmt expression) (printStmt expression') := by
  refine .within (.bind (.expect _) ?_)
  rintro start - rfl
  refine .bind_found h.started (fun _ => .first (.expect _)) fun e e' he => .bind (.expect _) ?_
  rintro stop - rfl
  refine .pure ?_
  rw [Fork.SameStmt, he, ← k.join]
  rfl

theorem returnStmt :
    Along k under weak k.SameStmt (returnStmt expression) (returnStmt expression') := by
  refine .within (.bind (.expect _) ?_)
  rintro start - rfl
  refine .bind_found (.unlessNext _ hb h.started) (fun _ => .first (.expect _))
    fun value value' hvalue => .bind (.expect _) ?_
  rintro stop - rfl
  refine .pure ?_
  rw [Fork.SameStmt, eq_map_of_rel hvalue, ← k.join]
  rfl

variable (hs : Along k true false k.SameStmt statement statement')

include hs

omit hb in
theorem ifStmt : Along k under weak k.SameStmt (ifStmt expression statement)
    (ifStmt expression' statement') := by
  refine .within (.bind (.expect _) ?_)
  rintro start - rfl
  refine .bind (.expect _) fun _ _ _ => .bind_found h.started (fun _ => .first (.expect _))
    fun e e' he => .bind (.expect _) fun _ _ _ => .bind hs fun yes yes' hyes =>
      .bind (.behindElse hs) fun no no' hno => .bind .last ?_
  rintro stop - rfl
  refine .pure ?_
  rw [Fork.SameStmt, he, hyes, eq_map_of_rel hno, ← k.join, mapSpans_branch]

omit hb in
theorem whileStmt : Along k under weak k.SameStmt (whileStmt expression statement)
    (whileStmt expression' statement') := by
  refine .within (.bind (.expect _) ?_)
  rintro start - rfl
  refine .bind (.expect _) fun _ _ _ => .bind_found h.started (fun _ => .first (.expect _))
    fun e e' he => .bind (.expect _) fun _ _ _ => .bind hs fun body body' hbody => .bind .last ?_
  rintro stop - rfl
  refine .pure ?_
  rw [Fork.SameStmt, he, hbody, ← k.join]
  rfl

omit hs in
theorem forInit : Along k true true (Option.Rel k.SameStmt) (forInit expression)
    (forInit expression') := by
  refine .peek_weak (.forInit hb) fun t line => ?_
  dsimp only
  cases t.token with
  | number | text | name | endOfInput => exact .bind (exprStmt h) fun _ _ hi => .pure (.some hi)
  | symbol sym =>
    cases sym with
    | semicolon => exact .bind_weak .next (fun _ => .pure _) fun _ _ _ => .pure .none
    | varWord => exact .bind (varDecl hb h) fun _ _ hi => .pure (.some hi)
    | _ => exact .bind (exprStmt h) fun _ _ hi => .pure (.some hi)

theorem forStmt : Along k under weak k.SameStmt (forStmt expression statement)
    (forStmt expression' statement') := by
  refine .within (.bind (.expect _) ?_)
  rintro start - rfl
  refine .bind (.expect _) fun _ _ _ => .bind_found (forInit hb h)
    (fun _ => .second (.unlessNext _ hb) fun _ => .first (.expect _)) fun init init' hinit =>
      .bind_found (.unlessNext _ hb h.started) (fun _ => .first (.expect _))
        fun condition condition' hcondition => .bind (.expect _) ?_
  rintro sign - rfl
  refine .bind_found (.unlessNext _ hb h.started) (fun _ => .first (.expect _))
    fun increment increment' hincrement => .bind (.expect _) fun _ _ _ => .bind hs
      fun body body' hbody => .bind .last ?_
  rintro stop - rfl
  have hforCondition : Along k true false k.SameExpr (forCondition sign condition)
      (forCondition (k.move sign) condition') := by
    cases hcondition with
    | none =>
      refine .bind (.mint rfl) ?_
      rintro m - rfl
      exact .pure rfl
    | some he => exact .pure he
  refine .bind hforCondition fun e e' he => .pure ?_
  rw [Fork.SameStmt, mapSpans_forLoop, eq_map_of_rel hinit, he, eq_map_of_rel hincrement, hbody,
    ← k.join]

end

end Along

mutual

theorem declaration_along : ∀ {f f' : Nat}, f ≤ f' →
    Along k false false k.SameStmt (declaration f) (declaration f')
  | 0, _, _ => .exhausted
  | f + 1, f' + 1, hf => by
    have hle := Nat.le_of_succ_le_succ hf
    have hfound := Finds.sentence (declaration_reads (f + 1))
    have hd : Along k true false k.SameStmt (declaration f) (declaration f') :=
      (declaration_along hle).started
    have hb := built_declaration f
    simp only [declaration, staged_eq] at hfound ⊢
    refine .peek_found hfound fun t line => ?_
    dsimp only
    cases t.token with
    | number | text | name | endOfInput => exact statement_along hle
    | symbol s =>
      cases s with
      | classWord => exact .classDecl hb hd hle
      | funWord => exact .funDecl hb hd hle
      | varWord => exact .varDecl (built_expression f) (expression_along hle)
      | _ => exact statement_along hle

theorem statement_along : ∀ {f f' : Nat}, f ≤ f' →
    Along k false false k.SameStmt (statement f) (statement f')
  | 0, _, _ => .exhausted
  | f + 1, f' + 1, hf => by
    have hle := Nat.le_of_succ_le_succ hf
    have hfound := Finds.sentence (statement_reads (f + 1))
    have he := expression_along (k := k) hle
    have hs : Along k true false k.SameStmt (statement f) (statement f') := (statement_along hle).started
    simp only [statement, staged_eq] at hfound ⊢
    refine .peek_found hfound fun t line => ?_
    dsimp only
    cases t.token with
    | number | text | name | endOfInput => exact .exprStmt he
    | symbol s =>
      cases s with
      | forWord => exact .forStmt (built_expression f) he hs
      | ifWord => exact .ifStmt he hs
      | printWord => exact .printStmt he
      | returnWord => exact .returnStmt (built_expression f) he
      | whileWord => exact .whileStmt he hs
      | openBrace => exact .blockStmt (built_declaration f) (declaration_along hle).started hle
      | _ => exact .exprStmt he

end

end Parser
end ClassScript
