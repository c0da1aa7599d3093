import SftpWire.Primitive

/-!
# Decoder bodies

Every `UnmarshalBinary` of `packet.go` is a chain of statements

    if p.X, b, err = unmarshalXSafe(b); err != nil { return err }

that fill the receiver field by field and stop at the first error. `Decode P` is such
a chain over a receiver of type `P` and the unread buffer: it panics (`none`), or stops
with the receiver as far as it was filled, what is left of the buffer and the error.

`Decode.Spec` says at once everything the packet theorems need of a chain: it never
panics, its only error is `shortPacketError`, on success it has read exactly `put` of
what it filled in, and it reads every such encoding back. `Spec.field` gives it for one
statement from the field's `Codec`, and `Spec.andThen` for a chain, provided the later
statements leave alone what the earlier ones read (`Keeps`).
-/

namespace SftpWire

def Decode (P : Type) := P → Bytes → Option (P × Bytes × Option GoError)

namespace Decode

variable {P α β : Type}

/-- `p.X, b, err = get(b)`, where `set p v` is `p` with `X` set to `v`. -/
def field (get : Bytes → Option (α × Bytes × Option GoError)) (set : P → α → P) :
    Decode P :=
  fun p b => (get b).map fun (v, b, err) => (set p v, b, err)

/-- `if err != nil { return err }` between two statements. -/
def andThen (d₁ d₂ : Decode P) : Decode P := fun p b =>
  (d₁ p b).bind fun (p, b, err) => match err with
    | none => d₂ p b
    | some e => some (p, b, some e)

/-- `p.UnmarshalBinary(b)`: the receiver afterwards and the returned error. -/
def run (d : Decode P) (p : P) (b : Bytes) : Option (P × Option GoError) :=
  (d p b).map fun (p, _, err) => (p, err)

theorem run_eq_some {d : Decode P} {p q : P} {b : Bytes} {e : Option GoError} :
    d.run p b = some (q, e) ↔ ∃ rest, d p b = some (q, rest, e) := by
  simp only [run, Option.map_eq_some']
  constructor
  · rintro ⟨⟨q', rest, e'⟩, h, hq⟩
    cases hq
    exact ⟨rest, h⟩
  · rintro ⟨rest, h⟩
    exact ⟨_, h, rfl⟩

theorem andThen_ok {d₁ d₂ : Decode P} {p q : P} {b rest : Bytes}
    (h : d₁ p b = some (q, rest, none)) : d₁.andThen d₂ p b = d₂ q rest := by
  simp [andThen, h]

theorem andThen_error {d₁ d₂ : Decode P} {p q : P} {b rest : Bytes} {e : GoError}
    (h : d₁ p b = some (q, rest, some e)) : d₁.andThen d₂ p b = some (q, rest, some e) := by
  simp [andThen, h]

theorem andThen_eq_ok {d₁ d₂ : Decode P} {p q : P} {b rest : Bytes}
    (h : d₁.andThen d₂ p b = some (q, rest, none)) :
    ∃ p₁ b₁, d₁ p b = some (p₁, b₁, none) ∧
      d₂ p₁ b₁ = some (q, rest, none) := by
  simp only [andThen, Option.bind_eq_some] at h
  obtain ⟨⟨p₁, b₁, err⟩, h₁, h₂⟩ := h
  cases err with
  | none => exact ⟨p₁, b₁, h₁, h₂⟩
  | some e => cases h₂

theorem andThen_eq_error {d₁ d₂ : Decode P} {p q : P} {b rest : Bytes} {e : GoError}
    (h : d₁.andThen d₂ p b = some (q, rest, some e)) :
    d₁ p b = some (q, rest, some e) ∨
      ∃ p₁ b₁, d₁ p b = some (p₁, b₁, none) ∧
        d₂ p₁ b₁ = some (q, rest, some e) := by
  simp only [andThen, Option.bind_eq_some] at h
  obtain ⟨⟨p₁, b₁, err⟩, h₁, h₂⟩ := h
  cases err with
  | none => exact .inr ⟨p₁, b₁, h₁, h₂⟩
  | some e' => cases h₂; exact .inl h₁

/-- The chain never panics. -/
def Total (d : Decode P) : Prop := ∀ p b, (d p b).isSome

theorem Total.run {d : Decode P} (h : Total d) (p : P) (b : Bytes) : (d.run p b).isSome := by
  simpa [Decode.run] using h p b

/-- Every error the chain returns satisfies `E`. -/
def Fails (d : Decode P) (E : GoError → Prop) : Prop :=
  ∀ p b q rest e, d p b = some (q, rest, some e) → E e

theorem Total.andThen {d₁ d₂ : Decode P} (h₁ : Total d₁) (h₂ : Total d₂) :
    Total (d₁.andThen d₂) := fun p b => by
  obtain ⟨⟨p', b', err⟩, hd⟩ := Option.isSome_iff_exists.mp (h₁ p b)
  cases err with
  | none => rw [andThen_ok hd]; exact h₂ p' b'
  | some e => simp [andThen_error hd]

theorem Fails.andThen {d₁ d₂ : Decode P} {E : GoError → Prop} (h₁ : Fails d₁ E)
    (h₂ : Fails d₂ E) : Fails (d₁.andThen d₂) E := fun _ _ _ _ _ hd => by
  rcases andThen_eq_error hd with hd₁ | ⟨_, _, -, hd₂⟩
  · exact h₁ _ _ _ _ _ hd₁
  · exact h₂ _ _ _ _ _ hd₂

theorem Fails.mono {d : Decode P} {E E' : GoError → Prop} (h : Fails d E)
    (hE : ∀ e, E e → E' e) : Fails d E' := fun p b q rest e hd => hE e (h p b q rest e hd)

theorem Total.field {get : Bytes → Option (α × Bytes × Option GoError)} {set : P → α → P}
    (h : ∀ b, (get b).isSome) : Total (field get set) := fun _ b => by
  simpa [Decode.field] using h b

theorem Fails.field {get : Bytes → Option (α × Bytes × Option GoError)} {set : P → α → P}
    {E : GoError → Prop} (h : ∀ {b v rest e}, get b = some (v, rest, some e) → E e) :
    Fails (field get set) E := fun _ _ _ _ _ hd => by
  simp only [Decode.field, Option.map_eq_some'] at hd
  obtain ⟨⟨v, _, _⟩, hg, ⟨-, -, rfl⟩⟩ := hd
  exact h hg

/-- No statement of the chain changes `f` of the receiver. -/
structure Keeps (d : Decode P) (f : P → β) : Prop where
  keeps : ∀ {p b q rest e}, d p b = some (q, rest, e) → f q = f p

theorem Keeps.field {get : Bytes → Option (α × Bytes × Option GoError)} {set : P → α → P}
    {f : P → β} (h : ∀ p v, f (set p v) = f p) : Keeps (field get set) f := by
  refine ⟨fun {p b q rest e} hd => ?_⟩
  simp only [Decode.field, Option.map_eq_some'] at hd
  obtain ⟨⟨v, _, _⟩, _, ⟨rfl, -, -⟩⟩ := hd
  exact h p v

theorem Keeps.andThen {d₁ d₂ : Decode P} {f : P → β} (h₁ : Keeps d₁ f)
    (h₂ : Keeps d₂ f) :
    Keeps (d₁.andThen d₂) f := by
  refine ⟨fun {p b q rest e} hd => ?_⟩
  cases e with
  | none =>
    obtain ⟨_, _, hd₁, hd₂⟩ := andThen_eq_ok hd
    exact (h₂.keeps hd₂).trans (h₁.keeps hd₁)
  | some e =>
    rcases andThen_eq_error hd with hd₁ | ⟨_, _, hd₁, hd₂⟩
    · exact h₁.keeps hd₁
    · exact (h₂.keeps hd₂).trans (h₁.keeps hd₁)

/-- Whatever the chain returns, `f` of the receiver is `g` of the buffer it was given. -/
def Sets (d : Decode P) (f : P → β) (g : Bytes → β) : Prop :=
  ∀ p b q rest e, d p b = some (q, rest, e) → f q = g b

theorem Sets.field {get : Bytes → Option (α × Bytes × Option GoError)} {set : P → α → P}
    {view : P → α} {g : Bytes → α} (hview : ∀ p v, view (set p v) = v)
    (hg : ∀ b v rest e, get b = some (v, rest, e) → v = g b) :
    Sets (field get set) view g := fun _ b _ _ _ hd => by
  simp only [Decode.field, Option.map_eq_some'] at hd
  obtain ⟨⟨v, _, _⟩, hget, ⟨rfl, -, -⟩⟩ := hd
  rw [hview]
  exact hg b _ _ _ hget

theorem Sets.andThen {d₁ d₂ : Decode P} {f : P → β} {g : Bytes → β} (h₁ : Sets d₁ f g)
    (h₂ : Keeps d₂ f) : Sets (d₁.andThen d₂) f g := fun p b q rest e hd => by
  cases e with
  | none =>
    obtain ⟨_, _, hd₁, hd₂⟩ := andThen_eq_ok hd
    exact (h₂.keeps hd₂).trans (h₁ _ _ _ _ _ hd₁)
  | some e =>
    rcases andThen_eq_error hd with hd₁ | ⟨_, _, hd₁, hd₂⟩
    · exact h₁ _ _ _ _ _ hd₁
    · exact (h₂.keeps hd₂).trans (h₁ _ _ _ _ _ hd₁)

/-- A chain that starts with `p.X, b, err = unmarshalUint32Safe(b)` sets `X` to the
buffer's first word, whether or not a later statement fails. -/
theorem Sets.uint32 {set : P → UInt32 → P} {view : P → UInt32}
    (hview : ∀ p v, view (set p v) = v) :
    Sets (Decode.field unmarshalUint32Safe set) view firstWord :=
  Sets.field hview fun _ _ _ _ => unmarshalUint32Safe_eq_firstWord

/-- What a chain is: `fill q p` is the receiver `p` after reading `put q`, and `ok`
says which values of the fields `put` can write. -/
structure Spec (d : Decode P) (put : P → Bytes) (ok : P → Prop) (fill : P → P → P) :
    Prop where
  total : Total d
  short : Fails d (· = .shortPacket)
  sound : ∀ {p b q rest}, d p b = some (q, rest, none) → b = put q ++ rest ∧ ok q
  complete : ∀ q p r, ok q → d p (put q ++ r) = some (fill q p, r, none)
  ok_of_length : ∀ q, (put q).length < 2 ^ 32 → ok q

theorem Spec.field (C : Codec α) (view : P → α) (set : P → α → P)
    (hview : ∀ p v, view (set p v) = v) :
    Spec (field C.get set) (fun p => C.put (view p)) (fun p => C.fits (view p))
      (fun q p => set p (view q)) where
  total := Total.field C.get_isSome
  short := Fails.field C.get_error
  sound {p b q rest} hd := by
    simp only [Decode.field, Option.map_eq_some'] at hd
    obtain ⟨⟨v, _, _⟩, hg, ⟨rfl, rfl, rfl⟩⟩ := hd
    rw [hview]
    exact C.get_ok hg
  complete q p r hok := by simp [Decode.field, C.get_put _ r hok]
  ok_of_length q := C.fits_of_length (view q)

theorem Spec.andThen {d₁ d₂ : Decode P} {put₁ put₂ : P → Bytes} {ok₁ ok₂ : P → Prop}
    {fill₁ fill₂ : P → P → P} (h₁ : Spec d₁ put₁ ok₁ fill₁)
    (h₂ : Spec d₂ put₂ ok₂ fill₂)
    (hput : Keeps d₂ put₁) (hok : Keeps d₂ ok₁) :
    Spec (d₁.andThen d₂) (fun p => put₁ p ++ put₂ p) (fun p => ok₁ p ∧ ok₂ p)
      (fun q p => fill₂ q (fill₁ q p)) where
  total := h₁.total.andThen h₂.total
  short := h₁.short.andThen h₂.short
  sound hd := by
    obtain ⟨_, _, hd₁, hd₂⟩ := andThen_eq_ok hd
    obtain ⟨hb₁, hok₁⟩ := h₁.sound hd₁
    obtain ⟨hb₂, hok₂⟩ := h₂.sound hd₂
    refine ⟨?_, by rw [hok.keeps hd₂]; exact hok₁, hok₂⟩
    rw [hb₁, hb₂, hput.keeps hd₂, List.append_assoc]
  complete q p r hok' := by
    rw [List.append_assoc, andThen_ok (h₁.complete q p _ hok'.1), h₂.complete q _ r hok'.2]
  ok_of_length q h := by
    rw [List.length_append] at h
    exact ⟨h₁.ok_of_length q (by omega), h₂.ok_of_length q (by omega)⟩

/-- One more statement `p.X, b, err = get(b)` after a chain that does not read `X`. -/
theorem Spec.andThen_field {d₁ : Decode P} {put₁ : P → Bytes} {ok₁ : P → Prop}
    {fill₁ : P → P → P} (h₁ : Spec d₁ put₁ ok₁ fill₁) (C : Codec α)
    (view : P → α)
    (set : P → α → P) (hview : ∀ p v, view (set p v) = v := by intros; rfl)
    (hput : ∀ p v, put₁ (set p v) = put₁ p := by intros; rfl)
    (hok : ∀ p v, ok₁ (set p v) = ok₁ p := by intros; rfl) :
    Spec (d₁.andThen (Decode.field C.get set)) (fun p => put₁ p ++ C.put (view p))
      (fun p => ok₁ p ∧ C.fits (view p)) (fun q p => set (fill₁ q p) (view q)) :=
  h₁.andThen (Spec.field C view set hview) (Keeps.field hput) (Keeps.field hok)

/-- Restate a chain's encoding, side condition and result in their own words. -/
theorem Spec.of_eq {d : Decode P} {put put' : P → Bytes} {ok ok' : P → Prop}
    {fill fill' : P → P → P} (h : Spec d put ok fill) (hput : ∀ p, put p = put' p)
    (hok : ∀ p, ok p ↔ ok' p) (hfill : ∀ q p, fill q p = fill' q p) :
    Spec d put' ok' fill' := by
  obtain ⟨total, short, sound, complete, ok_of_length⟩ := h
  refine ⟨total, short, fun hd => ?_, fun q p r hq => ?_, fun q hq => ?_⟩
  · rw [← hput, ← hok]; exact sound hd
  · rw [← hput, ← hfill]; exact complete q p r ((hok q).mpr hq)
  · exact (hok q).mp (ok_of_length q (hput q ▸ hq))

end Decode

end SftpWire
