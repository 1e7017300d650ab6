/-
# How parsers move a cursor

What a parser that succeeds has done to its cursor: it has read some tokens and given
out some identities, and nothing else (`Moves`). `Reads p ids P` says that whenever `p`
succeeds, the tokens it has read and its value are related by `P`, and the identities
it has given out are those of its value.
-/
import ClassScript.Proofs.Syntax.Grammar
import ClassScript.Proofs.Syntax.Identities
import ClassScript.Syntax.Program

namespace ClassScript
namespace Parser

variable {α β : Type} {c c' : Cursor}

/-! ### Successful answers of the steps -/

@[simp] theorem pure_eq_ok {a b : α} : (pure a : Parser α) c = .ok b c' ↔ a = b ∧ c = c' :=
  Reply.ok.injEq a c b c' ▸ Iff.rfl

theorem bind_eq_ok {p : Parser α} {f : α → Parser β} {b : β} :
    (p >>= f) c = .ok b c' ↔ ∃ a c₁, p c = .ok a c₁ ∧ f a c₁ = .ok b c' := by
  show Parser.bind p f c = _ ↔ _
  unfold Parser.bind
  cases p c <;> simp

theorem refuse_eq_ok {problem : SyntaxProblem} {span : Span} {a : α} :
    (refuse problem span : Parser α) c = .ok a c' ↔ False := by
  simp [refuse]

theorem exhausted_eq_ok {a : α} : (exhausted : Parser α) c = .ok a c' ↔ False := by
  simp [exhausted]

theorem last_eq_ok {s : Span} : last c = .ok s c' ↔ c.last = s ∧ c = c' := by
  simp [last]

theorem ite_eq_ok {b : Prop} [Decidable b] {p q : Parser α} {a : α} :
    (if b then p else q) c = .ok a c' ↔ (b ∧ p c = .ok a c') ∨ (¬ b ∧ q c = .ok a c') := by
  by_cases h : b <;> simp [h]

/-- The answer of a parser, written so that a case split on the parser can be made. -/
def answer (p : Parser α) (c : Cursor) : Reply α := p c

/-- The token in front of a cursor, which is the end of the input if there is none left. -/
def Front (c : Cursor) (t : PlacedToken) : Prop :=
  (c.rest = [] ∧ t.token = .endOfInput) ∨ ∃ rest, c.rest = .ok t :: rest

theorem peek_eq_ok {t : PlacedToken} (h : peek c = .ok t c') : c' = c ∧ Front c t := by
  unfold peek at h
  split at h
  next hr =>
    simp only [Reply.ok.injEq] at h
    exact ⟨h.2.symm, .inl ⟨hr, by rw [← h.1]⟩⟩
  next t' rest hr =>
    simp only [Reply.ok.injEq] at h
    obtain ⟨rfl, rfl⟩ := h
    exact ⟨rfl, .inr ⟨rest, hr⟩⟩
  next => simp at h

theorem Front.in_construct {t : PlacedToken} (h : Front c t) (ks : List Construct) :
    Front { c with constructs := ks } t := h

/-- A token in front that is not the end of the input is the next lexeme. -/
theorem Front.rest {t : PlacedToken} (h : Front c t) (ht : t.token ≠ .endOfInput) :
    ∃ rest, c.rest = .ok t :: rest := by
  rcases h with ⟨-, h⟩ | h
  · exact absurd h ht
  · exact h

/-- There is one token in front of a cursor. -/
theorem Front.unique {t t' : PlacedToken} (h : Front c t) (h' : Front c t') : t.token = t'.token := by
  rcases h with ⟨hr, ht⟩ | ⟨rest, hr⟩ <;> rcases h' with ⟨hr', ht'⟩ | ⟨rest', hr'⟩
  · rw [ht, ht']
  · simp [hr] at hr'
  · simp [hr] at hr'
  · rw [hr] at hr'
    simp only [List.cons.injEq, Except.ok.injEq] at hr'
    rw [hr'.1]

/-- The token in front of a cursor is not the symbol `s`. -/
def FreeOf (s : Symbol) (c : Cursor) : Prop := ∀ t, Front c t → t.token ≠ .symbol s

theorem isSymbol_iff {s : Symbol} {t : PlacedToken} : isSymbol s t = true ↔ t.token = .symbol s := by
  unfold isSymbol
  cases t.token <;> simp

theorem isEnd_iff {t : PlacedToken} : isEnd t = true ↔ t.token = .endOfInput := by
  unfold isEnd
  cases t.token <;> simp

/-! ### Moves -/

/-- The cursor `c` has gone on to `c'` over the tokens `w`, giving out the identities `ids`. -/
structure Moves (c : Cursor) (w : List Token) (ids : List Nat) (c' : Cursor) : Prop where
  rest : ∃ used : List PlacedToken, c.rest = used.map .ok ++ c'.rest ∧ used.map (·.token) = w
  ids : Fresh c.nextId c'.nextId ids

namespace Moves

variable {c₁ : Cursor} {w w' : List Token} {is is' : List Nat}

theorem refl (c : Cursor) : Moves c [] [] c :=
  ⟨⟨[], by simp⟩, .nil (Nat.le_refl _)⟩

theorem trans (h : Moves c w is c₁) (h' : Moves c₁ w' is' c') :
    Moves c (w ++ w') (is ++ is') c' := by
  obtain ⟨⟨u, hu, rfl⟩, hi⟩ := h
  obtain ⟨⟨u', hu', rfl⟩, hi'⟩ := h'
  exact ⟨⟨u ++ u', by simp [hu, hu'], by simp⟩, hi.append hi'⟩

theorem perm (h : Moves c w is c') (hi : is.Perm is') : Moves c w is' c' := ⟨h.rest, h.ids.perm hi⟩

theorem sublist (h : Moves c w is c') (hi : is'.Sublist is) : Moves c w is' c' :=
  ⟨h.rest, h.ids.sublist hi⟩

/-- Entering and leaving constructs moves nothing. -/
theorem of_constructs {ks : List Construct} (h : Moves { c with constructs := ks } w is c') :
    Moves c w is { c' with constructs := c'.constructs.tail } :=
  ⟨h.rest, h.ids⟩

theorem rest_length (h : Moves c w is c') : c.rest.length = w.length + c'.rest.length := by
  obtain ⟨u, hu, rfl⟩ := h.rest
  simp [hu]

end Moves

theorem next_moves {t t' : PlacedToken} (hf : Front c t) (ht : t.token ≠ .endOfInput)
    (h : next c = .ok t' c') : t' = t ∧ Moves c [t.token] [] c' := by
  obtain ⟨rest, hr⟩ := hf.rest ht
  simp only [next, hr, Reply.ok.injEq] at h
  obtain ⟨rfl, rfl⟩ := h
  exact ⟨rfl, ⟨[t], by simp [hr]⟩, .nil (Nat.le_refl _)⟩

theorem mint_moves {span : Span} {m : Mark} (h : mint span c = .ok m c') : Moves c [] [m.id] c' := by
  simp only [mint, Reply.ok.injEq] at h
  obtain ⟨rfl, rfl⟩ := h
  exact ⟨⟨[], by simp⟩, .single _⟩

theorem sees_eq_ok {s : Symbol} {b : Bool} (h : sees s c = .ok b c') :
    c' = c ∧ ∃ t, Front c t ∧ (b = true ↔ t.token = .symbol s) := by
  simp only [sees, bind_eq_ok, pure_eq_ok] at h
  obtain ⟨t, c₁, hp, rfl, rfl⟩ := h
  obtain ⟨rfl, hf⟩ := peek_eq_ok hp
  exact ⟨rfl, t, hf, isSymbol_iff⟩

theorem expect_moves {s : Symbol} {span : Span} (h : expect s c = .ok span c') :
    Moves c [.symbol s] [] c' := by
  simp only [expect, bind_eq_ok, ite_eq_ok, refuse_eq_ok, and_false, or_false, pure_eq_ok] at h
  obtain ⟨t, c₁, hp, hs, t', c₂, hn, -, rfl⟩ := h
  obtain ⟨rfl, hf⟩ := peek_eq_ok hp
  rw [isSymbol_iff] at hs
  exact hs ▸ (next_moves hf (by simp [hs]) hn).2

theorem takeIf_some_moves {s : Symbol} {span : Span} (h : takeIf s c = .ok (some span) c') :
    Moves c [.symbol s] [] c' := by
  simp only [takeIf, bind_eq_ok, ite_eq_ok, pure_eq_ok, reduceCtorEq, false_and, and_false,
    or_false] at h
  obtain ⟨t, c₁, hp, hs, t', c₂, hn, -, rfl⟩ := h
  obtain ⟨rfl, hf⟩ := peek_eq_ok hp
  rw [isSymbol_iff] at hs
  exact hs ▸ (next_moves hf (by simp [hs]) hn).2

theorem takeIf_none {s : Symbol} (h : takeIf s c = .ok none c') : c' = c ∧ FreeOf s c := by
  simp only [takeIf, bind_eq_ok, ite_eq_ok, pure_eq_ok, reduceCtorEq, false_and, and_false,
    exists_false, false_or, true_and] at h
  obtain ⟨t, c₁, hp, hs, rfl⟩ := h
  obtain ⟨rfl, hf⟩ := peek_eq_ok hp
  rw [isSymbol_iff] at hs
  exact ⟨rfl, fun t' ht' => hf.unique ht' ▸ hs⟩

theorem expectName_moves {d : Declared} (h : expectName c = .ok d c') :
    Moves c [.name d.name] [] c' := by
  simp only [expectName, bind_eq_ok] at h
  obtain ⟨t, c₁, hp, h⟩ := h
  obtain ⟨rfl, hf⟩ := peek_eq_ok hp
  cases hx : t.token with
  | name x =>
    simp only [hx, bind_eq_ok, pure_eq_ok] at h
    obtain ⟨t', c₂, hn, rfl, rfl⟩ := h
    exact hx ▸ (next_moves hf (by simp [hx]) hn).2
  | symbol | text | number | endOfInput => simp [hx, refuse_eq_ok] at h

theorem within_eq_ok {k : Construct} {p : Parser α} {a : α} :
    within k p c = .ok a c' ↔
      ∃ c₁, p { c with constructs := k :: c.constructs } = .ok a c₁ ∧
        c' = { c₁ with constructs := c₁.constructs.tail } := by
  simp only [within, bind_eq_ok, enter, leave, Reply.ok.injEq, pure_eq_ok, true_and]
  constructor
  · rintro ⟨-, -, rfl, a, c₁, hp, -, -, rfl, rfl, rfl⟩
    exact ⟨c₁, hp, rfl⟩
  · rintro ⟨c₁, hp, rfl⟩
    exact ⟨(), _, rfl, a, c₁, hp, (), _, rfl, rfl, rfl⟩

/-! ### What parsers read -/

/-- Whenever `p` succeeds, the tokens it has read and its value are related by `P`, and it has given
out the identities of its value. -/
def Reads (p : Parser α) (ids : α → List Nat) (P : List Token → α → Prop) : Prop :=
  ∀ ⦃c a c'⦄, p c = .ok a c' → ∃ w, Moves c w (ids a) c' ∧ P w a

variable {ids : α → List Nat} {P : List Token → α → Prop}

theorem Reads.within {k : Construct} {p : Parser α} (h : Reads p ids P) :
    Reads (within k p) ids P := by
  intro c a c' hw
  obtain ⟨c₁, hp, rfl⟩ := within_eq_ok.mp hw
  obtain ⟨w, hm, hP⟩ := h hp
  exact ⟨w, hm.of_constructs, hP⟩

/-- What a list of items with commas between them reads. The items in `found` are read already. -/
theorem commaList_reads {item : Parser α} {place : α → Span} {tooMany : SyntaxProblem}
    (hi : Reads item ids P) : ∀ (f : Nat) {found as : List α} {c c' : Cursor},
    commaList item place tooMany f found c = .ok as c' →
    ∃ xs : List (List Token × α), xs ≠ [] ∧ as = found.reverse ++ xs.map Prod.snd ∧
      as.length ≤ maxArguments ∧ (∀ x ∈ xs, P x.1 x.2) ∧
      Moves c (Grammar.commaSeparated (xs.map Prod.fst)) (xs.flatMap fun x => ids x.2) c'
  | 0, _, _, _, _, h => by simp [commaList, exhausted_eq_ok] at h
  | f + 1, found, as, c, c', h => by
    simp only [commaList, bind_eq_ok, ite_eq_ok, refuse_eq_ok, and_false, false_or] at h
    obtain ⟨a, c₁, ha, hlen, o, c₂, ho, h⟩ := h
    obtain ⟨w, hm, hP⟩ := hi ha
    cases o with
    | none =>
      simp only [pure_eq_ok] at h
      obtain ⟨rfl, rfl⟩ := h
      obtain ⟨rfl, -⟩ := takeIf_none ho
      refine ⟨[(w, a)], by simp, by simp, ?_, by simpa using hP, ?_⟩
      · simp only [List.length_reverse, List.length_cons]
        omega
      · simpa [Grammar.commaSeparated] using hm
    | some span =>
      obtain ⟨xs, hne, rfl, hl, hall, hms⟩ := commaList_reads hi f h
      obtain ⟨x, xs, rfl⟩ := List.exists_cons_of_ne_nil hne
      refine ⟨(w, a) :: x :: xs, by simp, by simp, hl, ?_, ?_⟩
      · intro y hy
        rcases List.mem_cons.mp hy with rfl | hy
        · exact hP
        · exact hall y hy
      · have := (hm.trans (takeIf_some_moves ho)).trans hms
        simpa [Grammar.commaSeparated] using this

theorem unlessNext_reads {s : Symbol} {p : Parser α} {o : Option α}
    (h : unlessNext s p c = .ok o c') :
    (o = none ∧ c' = c) ∨ ∃ a, o = some a ∧ p c = .ok a c' := by
  simp only [unlessNext, bind_eq_ok, ite_eq_ok, pure_eq_ok] at h
  obtain ⟨b, c₁, hs, h⟩ := h
  obtain ⟨rfl, -⟩ := sees_eq_ok hs
  rcases h with ⟨-, rfl, rfl⟩ | ⟨-, a, c₂, ha, rfl, rfl⟩
  · exact .inl ⟨rfl, rfl⟩
  · exact .inr ⟨a, rfl, ha⟩

theorem behind_reads {s : Symbol} {p : Parser α} {o : Option α} (h : behind s p c = .ok o c') :
    (o = none ∧ c' = c ∧ FreeOf s c) ∨
      ∃ a c₁, o = some a ∧ Moves c [.symbol s] [] c₁ ∧ p c₁ = .ok a c' := by
  simp only [behind, bind_eq_ok] at h
  obtain ⟨o', c₁, ht, h⟩ := h
  cases o' with
  | none =>
    simp only [pure_eq_ok] at h
    obtain ⟨rfl, rfl⟩ := h
    exact .inl ⟨rfl, takeIf_none ht⟩
  | some span =>
    simp only [bind_eq_ok, pure_eq_ok] at h
    obtain ⟨a, c₂, ha, rfl, rfl⟩ := h
    exact .inr ⟨a, c₁, rfl, takeIf_some_moves ht, ha⟩

/-- What a list of items with commas between them reads, up to the symbol behind it. -/
theorem commaListBefore_reads {s : Symbol} {item : Parser α} {place : α → Span}
    {tooMany : SyntaxProblem} {f : Nat} {p : List α × Span} (hi : Reads item ids P)
    (h : commaListBefore s item place tooMany f c = .ok p c') :
    ∃ xs : List (List Token × α), xs.length ≤ maxArguments ∧ p.1 = xs.map Prod.snd ∧
      (∀ x ∈ xs, P x.1 x.2) ∧
      Moves c (Grammar.commaSeparated (xs.map Prod.fst) ++ [.symbol s])
        (xs.flatMap fun x => ids x.2) c' := by
  simp only [commaListBefore, bind_eq_ok, pure_eq_ok] at h
  obtain ⟨o, c₁, ho, stop, c₂, hs, rfl, rfl⟩ := h
  rcases unlessNext_reads ho with ⟨rfl, rfl⟩ | ⟨as, rfl, ha⟩
  · exact ⟨[], by simp, rfl, by simp, expect_moves hs⟩
  · obtain ⟨xs, -, has, hlen, hall, hm⟩ := commaList_reads hi f ha
    rw [List.reverse_nil, List.nil_append] at has
    refine ⟨xs, by simpa [has] using hlen, has, hall, ?_⟩
    simpa using hm.trans (expect_moves hs)

/-- What items up to a closing brace read. -/
theorem upToBrace_reads {item : Parser α} (hi : Reads item ids P) :
    ∀ (f : Nat) {found as : List α} {c c' : Cursor}, upToBrace item f found c = .ok as c' →
    ∃ xs : List (List Token × α), as = found.reverse ++ xs.map Prod.snd ∧
      (∀ x ∈ xs, P x.1 x.2) ∧
      Moves c (xs.map Prod.fst).flatten (xs.flatMap fun x => ids x.2) c'
  | 0, _, _, _, _, h => by simp [upToBrace, exhausted_eq_ok] at h
  | f + 1, found, as, c, c', h => by
    simp only [upToBrace, bind_eq_ok, ite_eq_ok, pure_eq_ok] at h
    obtain ⟨t, c₁, hp, h⟩ := h
    obtain ⟨rfl, -⟩ := peek_eq_ok hp
    rcases h with ⟨-, rfl, rfl⟩ | ⟨-, a, c₂, ha, h⟩
    · exact ⟨[], by simp, by simp, .refl _⟩
    · obtain ⟨w, hm, hP⟩ := hi ha
      obtain ⟨xs, rfl, hall, hms⟩ := upToBrace_reads hi f h
      refine ⟨(w, a) :: xs, by simp, ?_, by simpa using hm.trans hms⟩
      intro y hy
      rcases List.mem_cons.mp hy with rfl | hy
      · exact hP
      · exact hall y hy

end Parser
end ClassScript
