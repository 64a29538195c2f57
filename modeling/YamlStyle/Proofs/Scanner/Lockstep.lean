import YamlStyle.Proofs.Scanner.Tiling

/-!
# Two runs in lockstep

Several facts about the scanner compare **two runs**: over the same text at another place, or over a
text and a rewritten form of it. The steps correspond one to one, the tokens are of the same kinds,
and only the offsets differ, by one and the same map. `Lockstep f R` is what has to be shown about
single steps for that, and `Lockstep.run` is what follows for whole runs.

The first use is here: a scan that starts further right finds the same, further right
(`run_mapOffsets_add`).
-/

set_option autoImplicit false

namespace YamlStyle

/-! ## Mapping offsets -/

def RawToken.mapOffsets (f : Nat → Nat) (t : RawToken) : RawToken := ⟨t.kind, f t.start, f t.stop⟩

def ScanError.mapOffsets (f : Nat → Nat) (e : ScanError) : ScanError := ⟨f e.offset, e.fault⟩

/-- A scan with every offset mapped. -/
def Scan.mapOffsets (f : Nat → Nat) (scan : Scan) : Scan :=
  ⟨scan.tokens.map (·.mapOffsets f), scan.error.map (·.mapOffsets f)⟩

namespace Scanner

/-- A state with every offset mapped. The indentation is not one. -/
def State.mapOffsets (f : Nat → Nat) (s : State) : State :=
  ⟨f s.pos, f s.lineStart, s.indent, s.flow.map fun (bracket, offset) => (bracket, f offset)⟩

variable {f : Nat → Nat}

@[simp] theorem State.mapOffsets_inFlow (s : State) : (s.mapOffsets f).inFlow = s.inFlow := by
  simp [State.inFlow, State.mapOffsets]

theorem State.mapOffsets_track (s : State) (kind : TokenKind) :
    (s.mapOffsets f).track kind = (s.track kind).mapOffsets f := by
  cases kind <;> simp [State.track, State.mapOffsets]

/-- Which brackets are open decides whether one can be closed, not where they were opened. -/
theorem closeFlow_mapOffsets (s : State) (bracket : Bracket) :
    closeFlow (s.mapOffsets f) bracket = closeFlow s bracket := by
  obtain ⟨pos, lineStart, indent, flow⟩ := s
  cases flow with
  | nil => rfl
  | cons entry flow => rfl

theorem endError_mapOffsets (s : State) :
    endError (s.mapOffsets f) = (endError s).map (·.mapOffsets f) := by
  obtain ⟨pos, lineStart, indent, flow⟩ := s
  cases flow with
  | nil => rfl
  | cons entry flow => rfl

/-! ## Lockstep -/

/-- The kind of token a lexeme is, if it is one. -/
def Lexeme.kind? : Lexeme → Option TokenKind
  | .layout _ => none
  | .token kind _ => some kind

/-- `R` relates states and the texts left in them so that each step on one side is a step on the
other, with the same outcome and with offsets mapped by `f`. -/
structure Lockstep (f : Nat → Nat) (R : State → Text → State → Text → Prop) : Prop where
  state {s s' : State} {text text' : Text} : R s text s' text' → s' = s.mapOffsets f
  stop {s s' : State} {text' : Text} : R s [] s' text' → text' = []
  fault {s s' : State} {c : Char} {rest text' : Text} {fault : ScanFault} :
    R s (c :: rest) s' text' → lexeme s c rest = .error fault →
    ∃ c' rest', text' = c' :: rest' ∧ lexeme s' c' rest' = .error fault
  step {s s' : State} {c : Char} {rest text' : Text} {found : Lexeme} :
    R s (c :: rest) s' text' → lexeme s c rest = .ok found →
    ∃ c' rest' found', text' = c' :: rest' ∧ lexeme s' c' rest' = .ok found' ∧
      found'.kind? = found.kind? ∧
      R (s.after found (c :: rest.take found.length) (rest.drop found.length))
        (rest.drop found.length)
        (s'.after found' (c' :: rest'.take found'.length) (rest'.drop found'.length))
        (rest'.drop found'.length)

theorem consToken_mapOffsets {found found' : Lexeme} (hkind : found'.kind? = found.kind?)
    (s next : State) (scan : Scan) :
    consToken (s.mapOffsets f) found' (next.mapOffsets f) (scan.mapOffsets f) =
      (consToken s found next scan).mapOffsets f := by
  cases found with
  | layout n =>
    cases found' with
    | layout n' => rfl
    | token kind' n' => exact absurd hkind (by simp [Lexeme.kind?])
  | token kind n =>
    cases found' with
    | layout n' => exact absurd hkind (by simp [Lexeme.kind?])
    | token kind' n' =>
      obtain rfl : kind' = kind := Option.some.inj hkind
      rfl

/-- **Runs in lockstep find the same**, up to the map on offsets. -/
theorem Lockstep.run {R : State → Text → State → Text → Prop} (hR : Lockstep f R)
    {s s' : State} {text text' : Text} (h : R s text s' text') :
    run s' text' = (run s text).mapOffsets f := by
  fun_induction Scanner.run s text generalizing s' text' with
  | case1 s =>
    obtain rfl := hR.stop h
    obtain rfl := hR.state h
    rw [Scanner.run, endError_mapOffsets]
    rfl
  | case2 s c rest fault hfault =>
    obtain rfl := hR.state h
    obtain ⟨c', rest', rfl, hfault'⟩ := hR.fault h hfault
    rw [Scanner.run, hfault']
    rfl
  | @case3 s c rest found hfound next ih =>
    -- One step on either side. What the relation says behind it is what the induction asks for.
    obtain ⟨c', rest', found', rfl, hfound', hkind, hnext⟩ := hR.step h hfound
    obtain rfl := hR.state h
    rw [Scanner.run, hfound']
    show consToken _ found' _ (Scanner.run _ _) = _
    rw [ih hnext, hR.state hnext]
    exact consToken_mapOffsets hkind s _ _

/-! ## The same text at another place -/

theorem lexeme_mapOffsets {s : State} (h : (s.mapOffsets f).atLineStart = s.atLineStart) (c : Char)
    (rest : Text) : lexeme (s.mapOffsets f) c rest = lexeme s c rest := by
  rw [lexeme_eq_read, lexeme_eq_read,
    shapeAt_congr h s.mapOffsets_inFlow rfl (fun _ => rfl) fun _ _ => rfl]
  cases shapeAt s c rest with
  | closing bracket => exact closeFlow_mapOffsets s bracket
  | plain => rw [Shape.read, s.mapOffsets_inFlow]; rfl
  | _ => rfl

theorem State.mapOffsets_advance {s : State} (h : ∀ w, f (s.pos + w) = f s.pos + w)
    (taken rest : Text) :
    (s.mapOffsets f).advance taken rest = (s.advance taken rest).mapOffsets f := by
  unfold State.advance
  cases lastLine? taken <;> simp [State.mapOffsets, h]

/-- A step commutes with a map of offsets that moves everything from here on by the same. -/
theorem State.mapOffsets_after {s : State} (h : ∀ w, f (s.pos + w) = f s.pos + w) (found : Lexeme)
    (taken rest : Text) :
    (s.mapOffsets f).after found taken rest = (s.after found taken rest).mapOffsets f := by
  cases found with
  | layout n => exact State.mapOffsets_advance h taken rest
  | token kind n =>
    have htrack : ∀ w, f ((s.track kind).pos + w) = f (s.track kind).pos + w := by
      rw [track_pos]
      exact h
    rw [State.after, State.mapOffsets_track, State.mapOffsets_advance htrack]
    rfl

/-! ## The same text further right -/

variable (k : Nat)

theorem State.mapOffsets_add_atLineStart (s : State) :
    (s.mapOffsets (· + k)).atLineStart = s.atLineStart := by
  simp [State.atLineStart, State.mapOffsets]

theorem run_mapOffsets_add (s : State) (text : Text) :
    run (s.mapOffsets (· + k)) text = (run s text).mapOffsets (· + k) := by
  have hlock : Lockstep (· + k) fun s text s' text' => s' = s.mapOffsets (· + k) ∧ text' = text :=
    { state := fun h => h.1
      stop := fun h => h.2
      fault := by
        rintro s s' c rest text' fault ⟨rfl, rfl⟩ hfault
        exact ⟨c, rest, rfl, by rw [lexeme_mapOffsets (s.mapOffsets_add_atLineStart k), hfault]⟩
      step := by
        rintro s s' c rest text' found ⟨rfl, rfl⟩ hfound
        refine ⟨c, rest, found, rfl, ?_, rfl, ?_, rfl⟩
        · rw [lexeme_mapOffsets (s.mapOffsets_add_atLineStart k), hfound]
        · exact State.mapOffsets_after (fun w => Nat.add_right_comm ..) found _ _ }
  exact hlock.run ⟨rfl, rfl⟩

end Scanner

end YamlStyle
