import ScriptLang.Proofs.Rule.Reading

namespace ScriptLang

variable {α β : Type}

namespace Cursor

def Closed (c : Cursor) : Prop := ∃ token ∈ c.rest, token.kind = .eof

/-- Reading has gone from one cursor to the other and used up these tokens. -/
structure Moves (c : Cursor) (used : List Token) (c' : Cursor) : Prop where
  rest_eq : c.rest = used ++ c'.rest
  position_eq : c'.position = c.position + used.length
  openBlocks_eq : c'.openBlocks = c.openBlocks

namespace Moves

variable {c c' c'' : Cursor} {used used' : List Token}

theorem refl (c : Cursor) : c.Moves [] c := ⟨rfl, rfl, rfl⟩

theorem trans (h : c.Moves used c') (h' : c'.Moves used' c'') : c.Moves (used ++ used') c'' where
  rest_eq := by rw [h.rest_eq, h'.rest_eq, List.append_assoc]
  position_eq := by rw [h'.position_eq, h.position_eq, List.length_append]; omega
  openBlocks_eq := h'.openBlocks_eq.trans h.openBlocks_eq

theorem length_le (h : c.Moves used c') : c'.rest.length ≤ c.rest.length := by
  rw [h.rest_eq, List.length_append]; omega

theorem eq_mk (h : c.Moves used c') : c' = ⟨c.position + used.length, c'.rest, c.openBlocks⟩ := by
  obtain ⟨position, rest, openBlocks⟩ := c'
  cases h.position_eq
  cases h.openBlocks_eq
  rfl

theorem closed (h : c.Moves used c') (hused : ∀ token ∈ used, token.kind ≠ .eof)
    (hc : c.Closed) : c'.Closed := by
  obtain ⟨token, hmem, hkind⟩ := hc
  rw [h.rest_eq, List.mem_append] at hmem
  exact ⟨token, hmem.resolve_left fun hu => hused token hu hkind, hkind⟩

end Moves

theorem moves_next {c : Cursor} {token : Token} {rest : List Token} (h : c.rest = token :: rest) :
    c.Moves [token] ⟨c.position + 1, rest, c.openBlocks⟩ := ⟨h, rfl, rfl⟩

end Cursor

structure SyntaxError.StandsAt (error : SyntaxError) (c : Cursor) : Prop where
  head_eq : c.rest.head? = some error.token
  position_eq : error.position = c.position
  raised : error.fault.raised

/-- What a family of rules may do: the kinds of tokens it uses up, never an end mark, and the errors
it records in passing. -/
structure Regime where
  uses : TokenKind → Bool
  records : SyntaxError → Prop
  uses_eof : uses .eof = false := by rfl

/-- A reading that keeps to a regime: it only goes forward, a stop shows its error where reading
stands, and it runs out only where no token is left. -/
structure Reading.Keeps (regime : Regime) (c : Cursor) (reading : Reading α) : Prop where
  moves : ∃ used, c.Moves used reading.cursor ∧ ∀ token ∈ used, regime.uses token.kind
  records : ∀ error ∈ reading.recorded, regime.records error
  stops : ∀ error, reading.ending = .stopped error → error.StandsAt reading.cursor
  starves : reading.ending = .ranOut → reading.cursor.rest = []

namespace Reading.Keeps

variable {regime : Regime} {c c' : Cursor} {reading : Reading α}

theorem length_le (h : reading.Keeps regime c) : reading.cursor.rest.length ≤ c.rest.length := by
  obtain ⟨used, hm, -⟩ := h.moves
  exact hm.length_le

theorem of_stay {ending : Ending α} (hs : ∀ error, ending = .stopped error → error.StandsAt c)
    (he : ending = .ranOut → c.rest = []) : (Reading.mk ending c []).Keeps regime c where
  moves := ⟨[], .refl c, by simp⟩
  records := by simp
  stops := hs
  starves := he

theorem done (value : α) : (Reading.mk (.done value) c []).Keeps regime c :=
  .of_stay (by rintro _ ⟨⟩) (by rintro ⟨⟩)

theorem ranOut (h : c.rest = []) : (Reading.mk (.ranOut : Ending α) c []).Keeps regime c :=
  .of_stay (by rintro _ ⟨⟩) fun _ => h

/-- One token used up. -/
theorem next {token : Token} (value : α) (position openBlocks : Nat) (rest : List Token)
    (h : regime.uses token.kind) :
    (Reading.mk (.done value) ⟨position + 1, rest, openBlocks⟩ []).Keeps regime
      ⟨position, token :: rest, openBlocks⟩ where
  moves := ⟨[token], ⟨rfl, rfl, rfl⟩, by simpa using h⟩
  records := by simp
  stops := by rintro _ ⟨⟩
  starves := by rintro ⟨⟩

theorem not_mem_eof {used : List Token} (h : ∀ token ∈ used, regime.uses token.kind) :
    ∀ token ∈ used, token.kind ≠ .eof := by
  intro token hmem heof
  have := h token hmem
  rw [heof, regime.uses_eof] at this
  cases this

/-- A reading does not run out before an end mark. -/
theorem ends (h : reading.Keeps regime c) (hc : c.Closed) : reading.ending ≠ .ranOut := by
  intro hend
  obtain ⟨used, hm, hu⟩ := h.moves
  obtain ⟨token, hmem, -⟩ := hm.closed (not_mem_eof hu) hc
  rw [h.starves hend] at hmem
  cases hmem

theorem stopped {error : SyntaxError} {errors : List SyntaxError}
    (h : (Reading.mk (.stopped error : Ending α) c' errors).Keeps regime c) :
    (Reading.mk (.stopped error : Ending β) c' errors).Keeps regime c :=
  ⟨h.moves, h.records, by rintro _ ⟨⟩; exact h.stops error rfl, by rintro ⟨⟩⟩

theorem starved {errors : List SyntaxError}
    (h : (Reading.mk (.ranOut : Ending α) c' errors).Keeps regime c) :
    (Reading.mk (.ranOut : Ending β) c' errors).Keeps regime c :=
  ⟨h.moves, h.records, by rintro _ ⟨⟩, fun _ => h.starves rfl⟩

/-- A reading that goes on where another one came to. -/
theorem after {ending : Ending β} {errors : List SyntaxError}
    (h : (Reading.mk ending c' errors).Keeps regime c) (h' : reading.Keeps regime c') :
    (reading.after errors).Keeps regime c where
  moves := by
    obtain ⟨used, hm, hu⟩ := h.moves
    obtain ⟨used', hm', hu'⟩ := h'.moves
    refine ⟨used ++ used', hm.trans hm', ?_⟩
    intro token hmem
    exact (List.mem_append.mp hmem).elim (hu token) (hu' token)
  records := by
    intro error hmem
    exact (List.mem_append.mp hmem).elim (h.records error) (h'.records error)
  stops := h'.stops
  starves := h'.starves

end Reading.Keeps

namespace Rule

variable {regime : Regime} {n : Nat} {p p' : Rule α} {f f' : α → Rule β}

/-- Two rules give the same reading wherever at most `n` tokens are left, and it keeps to the
regime. -/
def Agree (regime : Regime) (n : Nat) (r s : Rule α) : Prop :=
  ∀ c : Cursor, c.rest.length ≤ n → r c = s c ∧ (r c).Keeps regime c

theorem Agree.mono {m : Nat} (h : Agree regime n p p') (hm : m ≤ n) : Agree regime m p p' :=
  fun c hc => h c (Nat.le_trans hc hm)

theorem Agree.left (h : Agree regime n p p') : Agree regime n p p :=
  fun c hc => ⟨rfl, (h c hc).2⟩

theorem agree_pure (value : α) : Agree regime n (pure value) (pure value) :=
  fun _ _ => ⟨rfl, .done value⟩

theorem agree_bind (hp : Agree regime n p p') (hf : ∀ value, Agree regime n (f value) (f' value)) :
    Agree regime n (p >>= f) (p' >>= f') := by
  intro c hc
  obtain ⟨heq, hk⟩ := hp c hc
  rcases hr : p c with ⟨ending, c', errors⟩
  rw [hr] at hk heq
  cases ending with
  | done value =>
    obtain ⟨hfeq, hfk⟩ := hf value c' (Nat.le_trans hk.length_le hc)
    rw [bind_of_done hr, bind_of_done heq.symm]
    exact ⟨congrArg _ hfeq, hk.after hfk⟩
  | stopped error =>
    rw [bind_of_stopped hr, bind_of_stopped heq.symm]
    exact ⟨rfl, hk.stopped⟩
  | ranOut =>
    rw [bind_of_ranOut hr, bind_of_ranOut heq.symm]
    exact ⟨rfl, hk.starved⟩

theorem agree_map (g : α → β) (hp : Agree regime n p p') : Agree regime n (g <$> p) (g <$> p') := by
  rw [map_eq_bind, map_eq_bind]
  exact agree_bind hp fun value => agree_pure (g value)

theorem agree_peek : Agree regime n peek peek := by
  rintro ⟨position, rest, openBlocks⟩ -
  refine ⟨rfl, ?_⟩
  cases rest with
  | nil => exact .ranOut rfl
  | cons token rest => exact .done token

theorem agree_stop (fault : SyntaxFault) (h : fault.raised) :
    Agree regime n (stop fault : Rule α) (stop fault) := by
  rintro ⟨position, rest, openBlocks⟩ -
  refine ⟨rfl, ?_⟩
  cases rest with
  | nil => exact .ranOut rfl
  | cons token rest =>
    refine .of_stay ?_ (by rintro ⟨⟩)
    rintro error ⟨⟩
    exact ⟨rfl, rfl, h⟩

theorem agree_recordError {error : SyntaxError} (h : regime.records error) :
    Agree regime n (recordError error) (recordError error) :=
  fun c _ => ⟨rfl, ⟨[], .refl c, by simp⟩, by simpa [recordError] using h, by rintro _ ⟨⟩, by
    rintro ⟨⟩⟩

theorem agree_flag {fault : SyntaxFault} (h : ∀ token position,
    regime.records ⟨fault, token, position⟩) : Agree regime n (flag fault) (flag fault) := by
  rintro ⟨position, rest, openBlocks⟩ -
  refine ⟨rfl, ?_⟩
  cases rest with
  | nil => exact .ranOut rfl
  | cons token rest =>
    exact ⟨⟨[], .refl _, by simp⟩, by simpa [flag] using h token position, by rintro _ ⟨⟩, by
      rintro ⟨⟩⟩

theorem agree_position : Agree regime n position position :=
  fun c _ => ⟨rfl, .done c.position⟩

theorem agree_atEnd : Agree regime n atEnd atEnd :=
  agree_bind agree_peek fun token => agree_pure token.isEof

theorem agree_isNext (kind : TokenKind) : Agree regime n (isNext kind) (isNext kind) :=
  agree_bind agree_peek fun _ => agree_pure _

/-- A choice by the next token: past a token of one of these kinds fewer tokens are left. -/
theorem agree_accept? {kinds : List TokenKind} {f f' : Option Token → Rule β}
    (hkinds : ∀ kind ∈ kinds, kind ≠ .eof → regime.uses kind)
    (hsome : ∀ token m, token.kind ∈ kinds → m < n →
      Agree regime m (f (some token)) (f' (some token)))
    (hnone : Agree regime n (f none) (f' none)) :
    Agree regime n (accept? kinds >>= f) (accept? kinds >>= f') := by
  rintro ⟨position, rest, openBlocks⟩ hc
  cases rest with
  | nil =>
    rw [bind_of_ranOut (accept?_nil ..), bind_of_ranOut (accept?_nil ..)]
    exact ⟨rfl, .ranOut rfl⟩
  | cons token rest =>
    by_cases h : token.kind ≠ .eof ∧ token.kind ∈ kinds
    · obtain ⟨heof, hk⟩ := h
      rw [bind_of_done (accept?_hit _ _ _ hk heof), bind_of_done (accept?_hit _ _ _ hk heof)]
      obtain ⟨heq, hkeep⟩ := hsome token rest.length hk hc ⟨position + 1, rest, openBlocks⟩
        (Nat.le_refl _)
      have hnext := Reading.Keeps.next token position openBlocks rest (hkinds _ hk heof)
      exact ⟨congrArg _ heq, hnext.after hkeep⟩
    · have hmiss : accept? kinds ⟨position, token :: rest, openBlocks⟩ =
          ⟨.done none, ⟨position, token :: rest, openBlocks⟩, []⟩ := by
        rw [accept?_cons, if_neg]
        simpa [Token.isEof] using h
      rw [bind_of_done hmiss, bind_of_done hmiss]
      exact hnone _ hc

theorem agree_expectNamed {kind : TokenKind} (expected context : String)
    (h : kind ≠ .eof → regime.uses kind) :
    Agree regime n (expectNamed kind expected context) (expectNamed kind expected context) :=
  agree_accept? (by simpa using h) (fun token _ _ _ => agree_pure token) (agree_stop _ rfl)

theorem agree_inBlock (hp : Agree regime n p p') : Agree regime n (inBlock p) (inBlock p') := by
  intro c hc
  obtain ⟨heq, hk⟩ := hp { c with openBlocks := c.openBlocks + 1 } hc
  refine ⟨by unfold inBlock; rw [heq], ?_, hk.records, ?_, hk.starves⟩
  · obtain ⟨used, hm, hu⟩ := hk.moves
    exact ⟨used, ⟨hm.rest_eq, hm.position_eq, rfl⟩, hu⟩
  · intro error he
    obtain ⟨hhead, hposition, hraised⟩ := hk.stops error he
    exact ⟨hhead, hposition, hraised⟩

theorem agree_rescue {handler handler' : SyntaxError → Rule α} (hp : Agree regime n p p')
    (hh : ∀ error c, c.rest.length ≤ n → error.StandsAt c →
      handler error c = handler' error c ∧ (handler error c).Keeps regime c) :
    Agree regime n (rescue p handler) (rescue p' handler') := by
  intro c hc
  obtain ⟨heq, hk⟩ := hp c hc
  rcases hr : p c with ⟨ending, c', errors⟩
  rw [hr] at hk heq
  cases ending with
  | done value =>
    rw [rescue_of_done hr, rescue_of_done heq.symm]
    exact ⟨rfl, hk⟩
  | stopped error =>
    rw [rescue_of_stopped hr, rescue_of_stopped heq.symm]
    obtain ⟨hheq, hhk⟩ := hh error c' (Nat.le_trans hk.length_le hc) (hk.stops error rfl)
    have hstep : (Reading.mk (.done ()) c' errors).Keeps regime c :=
      ⟨hk.moves, hk.records, by rintro _ ⟨⟩, by rintro ⟨⟩⟩
    exact ⟨congrArg _ hheq, hstep.after hhk⟩
  | ranOut =>
    rw [rescue_of_ranOut hr, rescue_of_ranOut heq.symm]
    exact ⟨rfl, hk⟩

/-- A rule that comes to its end only past some token. -/
def Consumes (n : Nat) (r : Rule α) : Prop :=
  ∀ c, c.rest.length ≤ n → ∀ value c' errors,
    r c = ⟨.done value, c', errors⟩ → c'.rest.length < c.rest.length

theorem Agree.length_le (h : Agree regime n p p') {c c' : Cursor} (hc : c.rest.length ≤ n)
    {ending : Ending α} {errors : List SyntaxError} (hr : p c = ⟨ending, c', errors⟩) :
    c'.rest.length ≤ c.rest.length := by
  obtain ⟨-, hk⟩ := h c hc
  rw [hr] at hk
  exact hk.length_le

theorem consumes_expectNamed {kind : TokenKind} (expected context : String) :
    Consumes n (expectNamed kind expected context) := by
  intro c _ token c' errors h
  obtain ⟨-, rest, hrest, -, -, rfl⟩ := expectNamed_eq_done h
  simp [hrest]

theorem consumes_bind_left (regime : Regime) (hp : Consumes n p)
    (hf : ∀ value, Agree regime n (f value) (f value)) : Consumes n (p >>= f) := by
  intro c hc value c' errors h
  obtain ⟨first, middle, before, later, hp', hf', -⟩ := bind_eq_done_iff.mp h
  have hlt := hp c hc first middle before hp'
  have hle := (hf first).length_le (by omega) hf'
  omega

theorem consumes_bind_right (hp : Agree regime n p p) (hf : ∀ value, Consumes n (f value)) :
    Consumes n (p >>= f) := by
  intro c hc value c' errors h
  obtain ⟨first, middle, before, later, hp', hf', -⟩ := bind_eq_done_iff.mp h
  have hle := hp.length_le hc hp'
  have hlt := hf first middle (by omega) value c' later hf'
  omega

theorem consumes_accept? (regime : Regime) {kinds : List TokenKind} {f : Option Token → Rule β}
    (hsome : ∀ token m, m < n → Agree regime m (f (some token)) (f (some token)))
    (hnone : Consumes n (f none)) : Consumes n (accept? kinds >>= f) := by
  intro c hc value c' errors h
  obtain ⟨found, middle, before, later, ha, hf, -⟩ := bind_eq_done_iff.mp h
  obtain ⟨-, token, rest, hrest, ⟨rfl, -, -, rfl⟩ | ⟨rfl, -, rfl⟩⟩ := accept?_eq_done ha
  · have hlen : c.rest.length = rest.length + 1 := by simp [hrest]
    have hle : c'.rest.length ≤ rest.length :=
      (hsome token rest.length (by omega)).length_le (Nat.le_refl _) hf
    omega
  · exact hnone middle hc value c' later hf

section Repetition

variable {step step' : α → Rule (Option α)}

def Shrinks (n : Nat) (step : α → Rule (Option α)) : Prop :=
  ∀ value c, c.rest.length ≤ n → ∀ value' c' errors,
    step value c = ⟨.done (some value'), c', errors⟩ → c'.rest.length < c.rest.length

theorem agree_iterateWithin (hs : ∀ value, Agree regime n (step value) (step' value))
    (hshrinks : Shrinks n step) (bound : Nat) (value : α) (c : Cursor) (hn : c.rest.length ≤ n)
    (hc : c.rest.length ≤ bound) :
    iterateWithin step bound value c = iterateWithin step' bound value c ∧
      (iterateWithin step bound value c).Keeps regime c := by
  -- every new value costs a token, so the bound lasts as long as there are tokens
  induction bound generalizing value c with
  | zero => exact ⟨rfl, .ranOut (List.length_eq_zero_iff.mp (Nat.le_zero.mp hc))⟩
  | succ bound ih =>
    rw [iterateWithin_succ, iterateWithin_succ]
    obtain ⟨heq, hk⟩ := hs value c hn
    rcases hr : step value c with ⟨ending, c', errors⟩
    rw [hr] at hk heq
    cases ending with
    | done found =>
      rw [bind_of_done hr, bind_of_done heq.symm]
      cases found with
      | some value' =>
        have hlt := hshrinks value c hn value' c' errors hr
        obtain ⟨hiter, hkeeps⟩ := ih value' c' (by omega) (by omega)
        exact ⟨congrArg _ hiter, hk.after hkeeps⟩
      | none => exact ⟨rfl, hk.after (.done value)⟩
    | stopped error =>
      rw [bind_of_stopped hr, bind_of_stopped heq.symm]
      exact ⟨rfl, hk.stopped⟩
    | ranOut =>
      rw [bind_of_ranOut hr, bind_of_ranOut heq.symm]
      exact ⟨rfl, hk.starved⟩

theorem agree_iterate (hs : ∀ value, Agree regime n (step value) (step' value))
    (hshrinks : Shrinks n step) (value : α) :
    Agree regime n (iterate step value) (iterate step' value) :=
  fun c hc => agree_iterateWithin hs hshrinks _ value c hc (Nat.le_refl _)

/-- A step that only goes on past a token of some kind costs a token. -/
theorem shrinks_loop {kinds : List TokenKind} {g : α → Token → Rule α}
    (hg : ∀ value token m, m < n → Agree regime m (g value token) (g value token)) :
    Shrinks n (loopStep kinds g) := by
  intro value c hc value' c' errors h
  obtain ⟨found, middle, before, later, ha, hf, -⟩ := bind_eq_done_iff.mp h
  obtain ⟨-, token, rest, hrest, ⟨rfl, -, -, rfl⟩ | ⟨rfl, -, rfl⟩⟩ := accept?_eq_done ha
  · have hlen : c.rest.length = rest.length + 1 := by simp [hrest]
    have hstep := agree_map some (hg value token rest.length (by omega))
    have hle : c'.rest.length ≤ rest.length := hstep.length_le (Nat.le_refl _) hf
    omega
  · cases hf

theorem agree_loop {kinds : List TokenKind} {g g' : α → Token → Rule α}
    (hkinds : ∀ kind ∈ kinds, kind ≠ .eof → regime.uses kind)
    (hg : ∀ value token m, m < n → Agree regime m (g value token) (g' value token)) (value : α) :
    Agree regime n (loop kinds g value) (loop kinds g' value) := by
  refine agree_iterate ?_ (shrinks_loop fun value token m hm => (hg value token m hm).left) value
  intro value
  refine agree_accept? hkinds (fun token m _ hm => ?_) (agree_pure none)
  exact agree_bind (hg value token m hm) fun _ => agree_pure _

/-- Where every step gets ahead, its repetition does not feel the bound on it. -/
structure Advances (holds : Cursor → Prop) (step : α → Rule (Option α)) : Prop where
  starves : ∀ value c, holds c → c.rest = [] → step value c = ⟨.ranOut, c, []⟩
  shrinks : ∀ value c, holds c → ∀ value' c' errors,
    step value c = ⟨.done (some value'), c', errors⟩ → c'.rest.length < c.rest.length ∧ holds c'

theorem Advances.iterateWithin_of_nil {holds : Cursor → Prop} (hs : Advances holds step)
    (bound : Nat) (value : α) {c : Cursor} (hc : holds c) (hrest : c.rest = []) :
    iterateWithin step bound value c = ⟨.ranOut, c, []⟩ := by
  cases bound with
  | zero => rfl
  | succ bound => rw [iterateWithin_succ, bind_of_ranOut (hs.starves value c hc hrest)]

theorem Advances.iterateWithin_eq {holds : Cursor → Prop} (hs : Advances holds step)
    (bound bound' : Nat) (value : α) (c : Cursor) (hc : holds c) (hb : c.rest.length ≤ bound)
    (hb' : c.rest.length ≤ bound') :
    iterateWithin step bound value c = iterateWithin step bound' value c := by
  induction bound generalizing value c bound' with
  | zero =>
    have hrest := List.length_eq_zero_iff.mp (Nat.le_zero.mp hb)
    rw [hs.iterateWithin_of_nil _ value hc hrest, hs.iterateWithin_of_nil _ value hc hrest]
  | succ bound ih =>
    cases bound' with
    | zero =>
      have hrest := List.length_eq_zero_iff.mp (Nat.le_zero.mp hb')
      rw [hs.iterateWithin_of_nil _ value hc hrest, hs.iterateWithin_of_nil _ value hc hrest]
    | succ bound' =>
      rw [iterateWithin_succ, iterateWithin_succ]
      refine bind_congr fun found c' errors hr => ?_
      cases found with
      | some value' =>
        obtain ⟨hlt, hc'⟩ := hs.shrinks value c hc value' c' errors hr
        exact ih bound' value' c' hc' (by omega) (by omega)
      | none => rfl

theorem accept?_bind_of_nil (kinds : List TokenKind) (f : Option Token → Rule β) {c : Cursor}
    (hc : c.rest = []) : (accept? kinds >>= f) c = ⟨.ranOut, c, []⟩ := by
  obtain ⟨position, rest, openBlocks⟩ := c
  cases hc
  exact bind_of_ranOut (accept?_nil ..)

theorem iterate_eq {holds : Cursor → Prop} (hs : Advances holds step) (value : α) (c : Cursor)
    (hc : holds c) : iterate step value c = (step value >>= andThen value (iterate step)) c := by
  unfold iterate
  rw [hs.iterateWithin_eq _ (c.rest.length + 1) value c hc (Nat.le_refl _) (by omega),
    iterateWithin_succ]
  refine bind_congr fun found c' errors hr => ?_
  cases found with
  | some value' =>
    obtain ⟨hlt, hc'⟩ := hs.shrinks value c hc value' c' errors hr
    exact hs.iterateWithin_eq _ _ value' c' hc' (Nat.le_of_lt hlt) (Nat.le_refl _)
  | none => rfl

/-- A loop is a choice by the next token: once more, or the end. -/
theorem loop_eq (regime : Regime) {kinds : List TokenKind} {g : α → Token → Rule α}
    (hg : ∀ value token n, Agree regime n (g value token) (g value token)) (value : α) :
    loop kinds g value = do
      match ← accept? kinds with
      | some token => loop kinds g (← g value token)
      | none => return value := by
  funext c
  have hs : Advances (fun _ => True) (loopStep kinds g) :=
    ⟨fun value c _ hc => accept?_bind_of_nil kinds _ hc, fun value c _ value' c' errors h =>
      ⟨shrinks_loop (fun value token m _ => hg value token m) value c (Nat.le_refl _) value' c'
        errors h, trivial⟩⟩
  unfold loop
  rw [iterate_eq hs value c trivial, loopStep_bind]
  rfl

end Repetition

section Recursion

variable {body body' : Rule α → Rule α} {p : Cursor → Reading α → Reading α → Prop}

/-- Without a token there is nothing to read. -/
def Starves (body : Rule α → Rule α) : Prop :=
  ∀ r c, c.rest = [] → body r c = ⟨.ranOut, c, []⟩

/-- What two bodies make of rules depends only on what those rules do with fewer tokens. -/
def Guarded (p : Cursor → Reading α → Reading α → Prop) (body body' : Rule α → Rule α) : Prop :=
  ∀ n r s, (∀ c, c.rest.length < n → p c (r c) (s c)) →
    ∀ c, c.rest.length ≤ n → p c (body r c) (body' s c)

theorem Starves.fixWithin_eq (hs : Starves body) (bound : Nat) {c : Cursor} (hc : c.rest = []) :
    fixWithin body bound c = ⟨.ranOut, c, []⟩ := by
  cases bound with
  | zero => rfl
  | succ bound => exact hs (fixWithin body bound) c hc

theorem Guarded.fixWithin (hg : Guarded p body body') (hs : Starves body) (hs' : Starves body')
    (bound bound' : Nat) (c : Cursor) (hb : c.rest.length ≤ bound) (hb' : c.rest.length ≤ bound') :
    p c (fixWithin body bound c) (fixWithin body' bound' c) := by
  -- on the tokens that are left: whatever a body asks for, it asks for past some token
  induction hn : c.rest.length using Nat.strongRecOn generalizing bound bound' c with
  | ind n ih =>
    subst hn
    cases hrest : c.rest with
    | nil =>
      rw [hs.fixWithin_eq bound hrest, hs'.fixWithin_eq bound' hrest]
      have h := hg 0 (Rule.fix body) (Rule.fix body')
        (fun _ h => absurd h (Nat.not_lt_zero _)) c (by simp [hrest])
      rwa [hs (Rule.fix body) c hrest, hs' (Rule.fix body') c hrest] at h
    | cons token rest =>
      have hlen : c.rest.length = rest.length + 1 := by simp [hrest]
      obtain ⟨bound, rfl⟩ := Nat.exists_eq_succ_of_ne_zero (n := bound) (by omega)
      obtain ⟨bound', rfl⟩ := Nat.exists_eq_succ_of_ne_zero (n := bound') (by omega)
      exact hg c.rest.length _ _
        (fun c' hc' => ih _ hc' bound bound' c' (by omega) (by omega) rfl) c (Nat.le_refl _)

theorem Guarded.fix (hg : Guarded p body body') (hs : Starves body) (hs' : Starves body')
    (c : Cursor) : p c (fix body c) (fix body' c) :=
  hg.fixWithin hs hs' _ _ c (Nat.le_refl _) (Nat.le_refl _)

/-- A rule that refers to itself is its own unfolding. -/
theorem Guarded.unfold (hg : Guarded p body body) (hs : Starves body) (c : Cursor) :
    p c (Rule.fix body c) (body (Rule.fix body) c) := by
  cases hrest : c.rest with
  | nil =>
    have heq : Rule.fix body c = body (Rule.fix body) c :=
      (hs.fixWithin_eq _ hrest).trans (hs (Rule.fix body) c hrest).symm
    have h := hg.fix hs hs c
    rw [heq] at h ⊢
    exact h
  | cons token rest =>
    have hlen : c.rest.length = rest.length + 1 := by simp [hrest]
    -- one level less is still enough for what the body reads
    have hfix : Rule.fix body c = body (Rule.fixWithin body rest.length) c := by
      unfold Rule.fix
      rw [hlen]
      rfl
    rw [hfix]
    refine hg c.rest.length _ _ ?_ c (Nat.le_refl _)
    intro c' hc'
    exact hg.fixWithin hs hs _ _ c' (by omega) (Nat.le_refl _)

/-- Rules that refer to themselves agree if their bodies do, given rules that agree with fewer
tokens. -/
theorem agree_fix (hs : Starves body) (hs' : Starves body')
    (hbody : ∀ m ≤ n, ∀ r s, (∀ k < m, Agree regime k r s) → Agree regime m (body r) (body' s)) :
    Agree regime n (Rule.fix body) (Rule.fix body') := by
  have hg : Guarded (fun c first second => c.rest.length ≤ n →
      first = second ∧ first.Keeps regime c) body body' := by
    intro k r s h c hc hn
    refine hbody c.rest.length hn r s ?_ c (Nat.le_refl _)
    exact fun j hj c' hc' => h c' (by omega) (by omega)
  exact fun c hc => hg.fix hs hs' c hc

theorem fix_apply (hs : Starves body)
    (hbody : ∀ m ≤ n, ∀ r s, (∀ k < m, Agree regime k r s) → Agree regime m (body r) (body s))
    (c : Cursor) (hc : c.rest.length ≤ n) : Rule.fix body c = body (Rule.fix body) c := by
  have hg : Guarded (fun c first second => c.rest.length ≤ n →
      first = second ∧ first.Keeps regime c) body body := by
    intro k r s h c hc hn
    refine hbody c.rest.length hn r s ?_ c (Nat.le_refl _)
    exact fun j hj c' hc' => h c' (by omega) (by omega)
  exact (hg.unfold hs c hc).1

theorem fix_eq (hs : Starves body)
    (hbody : ∀ m r s, (∀ k < m, Agree regime k r s) → Agree regime m (body r) (body s)) :
    Rule.fix body = body (Rule.fix body) :=
  funext fun c => fix_apply hs (fun m _ => hbody m) c (Nat.le_refl _)

end Recursion

end Rule

end ScriptLang
