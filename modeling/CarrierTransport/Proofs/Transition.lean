import CarrierTransport.Storage.Reporter

/-!
# Inverting transitions

What a transition did, read off the fact that it ended without an error: a sequence was made of
steps that all succeeded, and a transition of a part of a state left the other part alone.

A transition leaves a state behind also when it fails, so what is known of it is said of both ways
to end: `Ends` of one transition, `EndAlike` of two that are run side by side.
-/

namespace CarrierTransport.Transition

variable {ε ε' σ τ ω β γ : Type}

/-! ### Computations that may fail -/

theorem except_bind_eq_ok {x : Except ε β} {f : β → Except ε γ} {c : γ} :
    (x >>= f) = .ok c ↔ ∃ b, x = .ok b ∧ f b = .ok c := by
  cases x with
  | error e => exact ⟨nofun, nofun⟩
  | ok b => exact ⟨fun h => ⟨b, rfl, h⟩, fun ⟨_, rfl, h⟩ => h⟩

theorem except_map_eq_ok {x : Except ε β} {f : β → γ} {c : γ} :
    f <$> x = .ok c ↔ ∃ b, x = .ok b ∧ f b = c := by
  cases x with
  | error e => exact ⟨nofun, nofun⟩
  | ok b => exact ⟨fun h => ⟨b, rfl, Except.ok.inj h⟩, fun ⟨_, rfl, h⟩ => congrArg _ h⟩

theorem mapError_eq_ok {x : Except ε β} {wide : ε → ε'} {b : β} :
    x.mapError wide = .ok b ↔ x = .ok b := by
  cases x with
  | error e => exact ⟨nofun, nofun⟩
  | ok b' => exact ⟨fun h => by cases h; rfl, fun h => by cases h; rfl⟩

/-! ### Transitions -/

theorem bind_eq_ok {x : EStateM ε σ β} {f : β → EStateM ε σ γ} {s t : σ} {c : γ} :
    (x >>= f) s = .ok c t ↔ ∃ b r, x s = .ok b r ∧ f b r = .ok c t := by
  change EStateM.bind x f s = _ ↔ _
  rw [EStateM.bind]
  cases x s with
  | error e r => exact ⟨nofun, nofun⟩
  | ok b r => exact ⟨fun h => ⟨b, r, rfl, h⟩, fun ⟨_, _, h, h'⟩ => by cases h; exact h'⟩

theorem bind_of_ok {x : EStateM ε σ β} {f : β → EStateM ε σ γ} {s r : σ} {b : β}
    (h : x s = .ok b r) : (x >>= f) s = f b r := by
  change EStateM.bind x f s = _
  rw [EStateM.bind, h]

theorem bind_of_error {x : EStateM ε σ β} {f : β → EStateM ε σ γ} {s r : σ} {e : ε}
    (h : x s = .error e r) : (x >>= f) s = .error e r := by
  change EStateM.bind x f s = _
  rw [EStateM.bind, h]

theorem bind_eq_error {x : EStateM ε σ β} {f : β → EStateM ε σ γ} {s t : σ} {e : ε} :
    (x >>= f) s = .error e t ↔ x s = .error e t ∨ ∃ b r, x s = .ok b r ∧ f b r = .error e t := by
  change EStateM.bind x f s = _ ↔ _
  rw [EStateM.bind]
  cases x s with
  | error e r =>
    refine ⟨fun h => ?_, fun h => ?_⟩
    · cases h
      exact .inl rfl
    · obtain h | ⟨_, _, h, -⟩ := h
      · cases h
        rfl
      · cases h
  | ok b r =>
    refine ⟨fun h => .inr ⟨b, r, rfl, h⟩, fun h => ?_⟩
    obtain h | ⟨_, _, h, h'⟩ := h
    · cases h
    · cases h
      exact h'

theorem replace_eq_ok {next : σ → Except ε σ} {s t : σ} {u : Unit} :
    replace next s = .ok u t ↔ next s = .ok t := by
  rw [replace]
  cases next s with
  | error e => exact ⟨nofun, nofun⟩
  | ok r => exact ⟨fun h => by cases h; rfl, fun h => by cases h; rfl⟩

theorem zoom_eq_ok {get : σ → τ} {set : τ → σ → σ} {step : EStateM ε τ β} {s t : σ} {b : β} :
    zoom get set step s = .ok b t ↔ ∃ r, step (get s) = .ok b r ∧ t = set r s := by
  rw [zoom]
  cases step (get s) with
  | error e r => exact ⟨nofun, nofun⟩
  | ok b' r =>
    refine ⟨fun h => ?_, fun ⟨_, h, h'⟩ => ?_⟩
    · cases h
      exact ⟨r, rfl, rfl⟩
    · cases h
      rw [h']

theorem widenError_eq_ok {wide : ε → ε'} {step : EStateM ε σ β} {s t : σ} {b : β} :
    widenError wide step s = .ok b t ↔ step s = .ok b t := by
  rw [widenError]
  cases step s with
  | error e r => exact ⟨nofun, nofun⟩
  | ok b' r => exact ⟨fun h => by cases h; rfl, fun h => by cases h; rfl⟩

theorem onFirst_eq_ok {step : EStateM ε σ β} {s : σ} {w : ω} {b : β} {t : σ × ω} :
    onFirst step (s, w) = .ok b t ↔ step s = .ok b t.1 ∧ t.2 = w := by
  obtain ⟨s', w'⟩ := t
  rw [onFirst]
  cases step s with
  | error e r => exact ⟨nofun, nofun⟩
  | ok b' r =>
    refine ⟨fun h => ?_, fun ⟨h, h'⟩ => ?_⟩
    · cases h
      exact ⟨rfl, rfl⟩
    · cases h
      cases h'
      rfl

theorem onSecond_eq_ok {step : EStateM ε ω β} {s : σ} {w : ω} {b : β} {t : σ × ω} :
    onSecond step (s, w) = .ok b t ↔ t.1 = s ∧ step w = .ok b t.2 := by
  obtain ⟨s', w'⟩ := t
  rw [onSecond]
  cases step w with
  | error e r => exact ⟨nofun, nofun⟩
  | ok b' r =>
    refine ⟨fun h => ?_, fun ⟨h, h'⟩ => ?_⟩
    · cases h
      exact ⟨rfl, rfl⟩
    · cases h
      cases h'
      rfl

/-! ### Both ways to end -/

/-- The state that a transition leaves behind, however it ends. -/
def left : EStateM.Result ε σ β → σ
  | .ok _ s => s
  | .error _ s => s

/-- A value and a state that `done` holds of, or an error and a state that `failed` holds of. -/
inductive Ends (done : β → σ → Prop) (failed : ε → σ → Prop) : EStateM.Result ε σ β → Prop
  | ok {b : β} {s : σ} (h : done b s) : Ends done failed (.ok b s)
  | error {e : ε} {s : σ} (h : failed e s) : Ends done failed (.error e s)

/-- The same value with states that `done` relates, or the same error with states that `failed`
relates. -/
inductive EndAlike (done failed : σ → τ → Prop) :
    EStateM.Result ε σ β → EStateM.Result ε τ β → Prop
  | ok (b : β) {s : σ} {t : τ} (h : done s t) : EndAlike done failed (.ok b s) (.ok b t)
  | error (e : ε) {s : σ} {t : τ} (h : failed s t) : EndAlike done failed (.error e s) (.error e t)

section Ends

variable {done : β → σ → Prop} {failed : ε → σ → Prop} {r : EStateM.Result ε σ β}

theorem Ends.mono {done' : β → σ → Prop} {failed' : ε → σ → Prop} (h : Ends done failed r)
    (hdone : ∀ b s, done b s → done' b s) (hfailed : ∀ e s, failed e s → failed' e s) :
    Ends done' failed' r := by
  cases h with
  | ok h => exact .ok (hdone _ _ h)
  | error h => exact .error (hfailed _ _ h)

theorem Ends.left {P : σ → Prop} (h : Ends (fun (_ : β) => P) (fun (_ : ε) => P) r) :
    P (left r) := by
  cases h with
  | ok h => exact h
  | error h => exact h

theorem Ends.and {done' : β → σ → Prop} {failed' : ε → σ → Prop} (h : Ends done failed r)
    (h' : Ends done' failed' r) :
    Ends (fun b s => done b s ∧ done' b s) (fun e s => failed e s ∧ failed' e s) r := by
  cases h with
  | ok h =>
    cases h' with
    | ok h' => exact .ok ⟨h, h'⟩
  | error h =>
    cases h' with
    | error h' => exact .error ⟨h, h'⟩

theorem ends_of_forall (r : EStateM.Result ε σ β) (hdone : ∀ b s, done b s)
    (hfailed : ∀ e s, failed e s) : Ends done failed r := by
  cases r with
  | ok b s => exact .ok (hdone b s)
  | error e s => exact .error (hfailed e s)

theorem Ends.widenError {P Q : σ → Prop} (wide : ε → ε') {x : EStateM ε σ β} {s : σ}
    (h : Ends (fun _ => P) (fun _ => Q) (x s)) :
    Ends (fun _ => P) (fun _ => Q) (widenError wide x s) := by
  rw [CarrierTransport.widenError]
  cases hx : x s <;> rw [hx] at h <;> cases h <;> constructor <;> assumption

theorem Ends.zoom {P Q : σ → Prop} {get : σ → τ} {set : τ → σ → σ} {x : EStateM ε τ β} {s : σ}
    (h : Ends (fun _ t => P (set t s)) (fun _ t => Q (set t s)) (x (get s))) :
    Ends (fun _ => P) (fun _ => Q) (zoom get set x s) := by
  rw [CarrierTransport.zoom]
  cases hx : x (get s) <;> rw [hx] at h <;> cases h <;> constructor <;> assumption

theorem Ends.bind {done' : γ → σ → Prop} {x : EStateM ε σ β} {f : β → EStateM ε σ γ} {s : σ}
    (h : Ends done failed (x s)) (hf : ∀ b t, done b t → Ends done' failed (f b t)) :
    Ends done' failed ((x >>= f) s) := by
  change Ends done' failed (EStateM.bind x f s)
  rw [EStateM.bind]
  cases hx : x s with
  | ok b t =>
    rw [hx] at h
    cases h with
    | ok h => exact hf b t h
  | error e t =>
    rw [hx] at h
    cases h with
    | error h => exact .error h

theorem Ends.onFirst {P : β → σ × ω → Prop} {Q : ε → σ × ω → Prop} {x : EStateM ε σ β} {s : σ}
    {w : ω} (h : Ends (fun b t => P b (t, w)) (fun e t => Q e (t, w)) (x s)) :
    Ends P Q (onFirst x (s, w)) := by
  rw [CarrierTransport.onFirst]
  cases hx : x s <;> rw [hx] at h <;> cases h <;> constructor <;> assumption

theorem Ends.onSecond {P : β → σ × ω → Prop} {Q : ε → σ × ω → Prop} {x : EStateM ε ω β} {s : σ}
    {w : ω} (h : Ends (fun b v => P b (s, v)) (fun e v => Q e (s, v)) (x w)) :
    Ends P Q (onSecond x (s, w)) := by
  rw [CarrierTransport.onSecond]
  cases hx : x w <;> rw [hx] at h <;> cases h <;> constructor <;> assumption

/-- What happens to the first of two states is nothing to the second. -/
theorem ends_onFirst {Q : ω → Prop} (x : EStateM ε σ β) {s : σ × ω} (hs : Q s.2) :
    Ends (fun _ s => Q s.2) (fun _ s => Q s.2) (onFirst x s) :=
  .onFirst (ends_of_forall _ (fun _ _ => hs) fun _ _ => hs)

end Ends

section EndAlike

variable {done failed : σ → τ → Prop} {r : EStateM.Result ε σ β} {r' : EStateM.Result ε τ β}

theorem EndAlike.mono {done' failed' : σ → τ → Prop} (h : EndAlike done failed r r')
    (hdone : ∀ s t, done s t → done' s t) (hfailed : ∀ s t, failed s t → failed' s t) :
    EndAlike done' failed' r r' := by
  cases h with
  | ok b h => exact .ok b (hdone _ _ h)
  | error e h => exact .error e (hfailed _ _ h)

/-- A transition ends like itself. -/
theorem Ends.endAlike {P Q : σ → Prop} {r : EStateM.Result ε σ β}
    (h : Ends (fun _ => P) (fun _ => Q) r) :
    EndAlike (fun s t => t = s ∧ P s) (fun s t => t = s ∧ Q s) r r := by
  cases h with
  | ok h => exact .ok _ ⟨rfl, h⟩
  | error h => exact .error _ ⟨rfl, h⟩

/-- What is known of the first of two transitions that end alike. -/
theorem EndAlike.ends {P Q : σ → Prop}
    (h : EndAlike (fun s (_ : τ) => P s) (fun s _ => Q s) r r') :
    Ends (fun _ => P) (fun _ => Q) r := by
  cases h with
  | ok b h => exact .ok h
  | error e h => exact .error h

theorem EndAlike.left {P : σ → τ → Prop} (h : EndAlike P P r r') : P (left r) (left r') := by
  cases h with
  | ok b h => exact h
  | error e h => exact h

theorem EndAlike.bind {done' : σ → τ → Prop} {x : EStateM ε σ β} {y : EStateM ε τ β}
    {f : β → EStateM ε σ γ} {g : β → EStateM ε τ γ} {s : σ} {t : τ}
    (h : EndAlike done failed (x s) (y t))
    (hfg : ∀ b s t, done s t → EndAlike done' failed (f b s) (g b t)) :
    EndAlike done' failed ((x >>= f) s) ((y >>= g) t) := by
  change EndAlike done' failed (EStateM.bind x f s) (EStateM.bind y g t)
  rw [EStateM.bind, EStateM.bind]
  generalize x s = r at h
  generalize y t = r' at h
  cases h with
  | ok b h => exact hfg b _ _ h
  | error e h => exact .error e h

theorem EndAlike.widenError (wide : ε → ε') {x : EStateM ε σ β} {y : EStateM ε τ β} {s : σ} {t : τ}
    (h : EndAlike done failed (x s) (y t)) :
    EndAlike done failed (widenError wide x s) (widenError wide y t) := by
  rw [CarrierTransport.widenError, CarrierTransport.widenError]
  generalize x s = r at h
  generalize y t = r' at h
  cases h with
  | ok b h => exact .ok b h
  | error e h => exact .error (wide e) h

theorem EndAlike.zoom {σ' τ' : Type} {get : σ → σ'} {set : σ' → σ → σ} {get' : τ → τ'}
    {set' : τ' → τ → τ} {x : EStateM ε σ' β} {y : EStateM ε τ' β} {s : σ} {t : τ}
    (h : EndAlike (fun u v => done (set u s) (set' v t)) (fun u v => failed (set u s) (set' v t))
      (x (get s)) (y (get' t))) :
    EndAlike done failed (zoom get set x s) (zoom get' set' y t) := by
  rw [CarrierTransport.zoom, CarrierTransport.zoom]
  generalize x (get s) = r at h
  generalize y (get' t) = r' at h
  cases h with
  | ok b h => exact .ok b h
  | error e h => exact .error e h

theorem EndAlike.onFirst {P Q : σ × ω → τ × ω → Prop} {x : EStateM ε σ β} {y : EStateM ε τ β}
    {s : σ} {t : τ} {w : ω}
    (h : EndAlike (fun s t => P (s, w) (t, w)) (fun s t => Q (s, w) (t, w)) (x s) (y t)) :
    EndAlike P Q (onFirst x (s, w)) (onFirst y (t, w)) := by
  rw [CarrierTransport.onFirst, CarrierTransport.onFirst]
  generalize x s = r at h
  generalize y t = r' at h
  cases h with
  | ok b h => exact .ok b h
  | error e h => exact .error e h

/-- Two transitions of equal states that are the same end alike. -/
theorem EndAlike.onSecond {P Q : σ × ω → τ × ω → Prop} (x : EStateM ε ω β) {s : σ} {t : τ} (w : ω)
    (hP : ∀ v, P (s, v) (t, v)) (hQ : ∀ v, Q (s, v) (t, v)) :
    EndAlike P Q (onSecond x (s, w)) (onSecond x (t, w)) := by
  rw [CarrierTransport.onSecond, CarrierTransport.onSecond]
  cases x w with
  | ok b v => exact .ok b (hP v)
  | error e v => exact .error e (hQ v)

end EndAlike

end CarrierTransport.Transition
