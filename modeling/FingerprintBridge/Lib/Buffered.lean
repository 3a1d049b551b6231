import FingerprintBridge.Lib.Action

/-!
# Reading through a buffer

A task reads a stream that arrives in pieces, writes octets and owns a channel.
`Reads x bytes P E` says everything about a run of `x` that starts with `bytes` to
come, however they are cut into pieces: it returns `a`, having written `w` and left
`rest`, exactly when `P a w rest`; when it fails, `E` holds of what it wrote.
-/

/-- `reader` are the pieces still to come (an empty piece is no end of stream). -/
structure Duplex (χ : Type) where
  reader : List Bytes
  output : Bytes
  channel : χ
deriving DecidableEq, Repr

variable {χ α β : Type}

def write (b : Bytes) : Act (Duplex χ) Unit := fun st =>
  .ok () { st with output := st.output ++ b }

def getReader : Act (Duplex χ) (List Bytes) := fun st => .ok st.reader st

/-- From `st` to `st'`, `w` was written and `rest` is left. -/
def Moved (st st' : Duplex χ) (w rest : Bytes) : Prop :=
  st'.reader.flatten = rest ∧ st'.output = st.output ++ w ∧ st'.channel = st.channel

structure Reads (x : Act (Duplex χ) α) (bytes : Bytes) (P : α → Bytes → Bytes → Prop)
    (E : Bytes → Prop) : Prop where
  sound : ∀ st a st', st.reader.flatten = bytes → x st = .ok a st' →
    ∃ w rest, P a w rest ∧ Moved st st' w rest
  complete : ∀ st a w rest, st.reader.flatten = bytes → P a w rest →
    ∃ st', x st = .ok a st' ∧ Moved st st' w rest
  fault : ∀ st e st', st.reader.flatten = bytes → x st = .error e st' →
    ∃ w, E w ∧ st'.output = st.output ++ w ∧ st'.channel = st.channel

theorem Moved.trans {st st' st'' : Duplex χ} {w w' rest rest' : Bytes}
    (h : Moved st st' w rest) (h' : Moved st' st'' w' rest') : Moved st st'' (w ++ w') rest' :=
  ⟨h'.1, by rw [h'.2.1, h.2.1, List.append_assoc], h'.2.2.trans h.2.2⟩

section
variable {bytes : Bytes} {P : α → Bytes → Bytes → Prop} {E : Bytes → Prop}

theorem Reads.congr {P' : α → Bytes → Bytes → Prop} {x : Act (Duplex χ) α}
    (h : Reads x bytes P E) (hp : ∀ a w rest, P a w rest ↔ P' a w rest) :
    Reads x bytes P' E := by
  refine ⟨fun st a st' hst hx => ?_, fun st a w rest hst hp' => ?_, h.fault⟩
  · obtain ⟨w, rest, hw, hm⟩ := h.sound st a st' hst hx
    exact ⟨w, rest, (hp a w rest).1 hw, hm⟩
  · exact h.complete st a w rest hst ((hp a w rest).2 hp')

theorem Reads.mono {E' : Bytes → Prop} {x : Act (Duplex χ) α}
    (h : Reads x bytes P E) (he : ∀ w, E w → E' w) : Reads x bytes P E' := by
  refine ⟨h.sound, h.complete, fun st e st' hst hx => ?_⟩
  obtain ⟨w, hw, hm⟩ := h.fault st e st' hst hx
  exact ⟨w, he w hw, hm⟩

theorem reads_pure (a : α) :
    Reads (pure a : Act (Duplex χ) α) bytes (fun b w rest => b = a ∧ w = [] ∧ rest = bytes) E := by
  refine ⟨fun st b st' hst hx => ?_, fun st b w rest hst hp => ?_, fun st e st' _ hx => ?_⟩
  · obtain ⟨rfl, rfl⟩ := (Act.pure_ok_iff _ _ _ _).1 hx
    exact ⟨[], bytes, ⟨rfl, rfl, rfl⟩, hst, (List.append_nil _).symm, rfl⟩
  · obtain ⟨rfl, rfl, rfl⟩ := hp
    exact ⟨st, rfl, hst, (List.append_nil _).symm, rfl⟩
  · exact (Act.pure_ne_error _ _ _ _ hx).elim

theorem reads_lift (x : Res α) (he : E []) :
    Reads (liftM x : Act (Duplex χ) α) bytes
      (fun a w rest => x = .ok a ∧ w = [] ∧ rest = bytes) E := by
  refine ⟨fun st a st' hst hx => ?_, fun st a w rest hst hp => ?_, fun st e st' hst hx => ?_⟩
  · obtain ⟨hok, rfl⟩ := (Act.liftM_ok_iff _ _ _ _).1 hx
    exact ⟨[], bytes, ⟨hok, rfl, rfl⟩, hst, (List.append_nil _).symm, rfl⟩
  · obtain ⟨hok, rfl, rfl⟩ := hp
    exact ⟨st, (Act.liftM_ok_iff _ _ _ _).2 ⟨hok, rfl⟩, hst, (List.append_nil _).symm, rfl⟩
  · obtain ⟨-, rfl⟩ := (Act.liftM_error_iff _ _ _ _).1 hx
    exact ⟨[], he, (List.append_nil _).symm, rfl⟩

theorem reads_write (b : Bytes) :
    Reads (write b : Act (Duplex χ) Unit) bytes (fun _ w rest => w = b ∧ rest = bytes) E := by
  refine ⟨fun st a st' hst hx => ?_, fun st a w rest hst hp => ?_, fun st e st' _ hx => ?_⟩
  · cases hx
    exact ⟨b, bytes, ⟨rfl, rfl⟩, hst, rfl, rfl⟩
  · obtain ⟨rfl, rfl⟩ := hp
    exact ⟨_, rfl, hst, rfl, rfl⟩
  · cases hx

/-- The continuation starts with what was left. -/
theorem reads_bind {Q : α → Bytes → β → Bytes → Bytes → Prop} {x : Act (Duplex χ) α}
    {f : α → Act (Duplex χ) β} (hx : Reads x bytes P E)
    (hf : ∀ a w rest, P a w rest → Reads (f a) rest (Q a rest) (fun w' => E (w ++ w'))) :
    Reads (x >>= f) bytes
      (fun b w'' rest' => ∃ a w rest w', P a w rest ∧ Q a rest b w' rest' ∧ w'' = w ++ w') E := by
  refine ⟨fun st b st'' hst h => ?_, fun st b w'' rest' hst hp => ?_, fun st e st'' hst h => ?_⟩
  · obtain ⟨a, st', ha, hb⟩ := (Act.bind_ok_iff _ _ _ _ _).1 h
    obtain ⟨w, rest, hp, hm⟩ := hx.sound st a st' hst ha
    obtain ⟨w', rest', hq, hm'⟩ := (hf a w rest hp).sound st' b st'' hm.1 hb
    exact ⟨w ++ w', rest', ⟨a, w, rest, w', hp, hq, rfl⟩, hm.trans hm'⟩
  · obtain ⟨a, w, rest, w', hp, hq, rfl⟩ := hp
    obtain ⟨st', ha, hm⟩ := hx.complete st a w rest hst hp
    obtain ⟨st'', hb, hm'⟩ := (hf a w rest hp).complete st' b w' rest' hm.1 hq
    exact ⟨st'', (Act.bind_ok_iff _ _ _ _ _).2 ⟨a, st', ha, hb⟩, hm.trans hm'⟩
  · rcases (Act.bind_error_iff _ _ _ _ _).1 h with h | ⟨a, st', ha, h⟩
    · exact hx.fault st e st'' hst h
    · obtain ⟨w, rest, hp, hm⟩ := hx.sound st a st' hst ha
      obtain ⟨w', he, ho, hc⟩ := (hf a w rest hp).fault st' e st'' hm.1 h
      exact ⟨w ++ w', he, by rw [ho, hm.2.1, List.append_assoc], hc.trans hm.2.2⟩

/-- A part that writes nothing. -/
theorem reads_bind_silent {P : α → Bytes → Prop} {Q : α → Bytes → β → Bytes → Bytes → Prop}
    {x : Act (Duplex χ) α} {f : α → Act (Duplex χ) β}
    (hx : Reads x bytes (fun a w rest => w = [] ∧ P a rest) E)
    (hf : ∀ a rest, P a rest → Reads (f a) rest (Q a rest) E) :
    Reads (x >>= f) bytes (fun b w rest' => ∃ a rest, P a rest ∧ Q a rest b w rest') E := by
  have h := reads_bind (Q := Q) hx fun a w rest hp => by
    obtain ⟨rfl, hp⟩ := hp
    exact hf a rest hp
  refine h.congr fun b w rest' => ⟨?_, ?_⟩
  · rintro ⟨a, _, rest, w', ⟨rfl, hp⟩, hq, rfl⟩
    exact ⟨a, rest, hp, hq⟩
  · rintro ⟨a, rest, hp, hq⟩
    exact ⟨a, [], rest, w, ⟨rfl, hp⟩, hq, rfl⟩

theorem reads_lift_bind {Q : α → β → Bytes → Bytes → Prop} {x : Res α}
    {f : α → Act (Duplex χ) β} (he : E [])
    (hf : ∀ a, x = .ok a → Reads (f a) bytes (Q a) E) :
    Reads (liftM x >>= f) bytes (fun b w rest => ∃ a, x = .ok a ∧ Q a b w rest) E := by
  have hx : Reads (liftM x : Act (Duplex χ) α) bytes
      (fun a w rest => w = [] ∧ (x = .ok a ∧ rest = bytes)) E :=
    (reads_lift x he).congr fun a w rest => and_left_comm
  have h := reads_bind_silent (Q := fun a _ => Q a) (f := f) hx fun a rest hp => by
    rw [hp.2]
    exact hf a hp.1
  refine h.congr fun b w rest => ⟨?_, ?_⟩
  · rintro ⟨a, _, ⟨ha, rfl⟩, hq⟩
    exact ⟨a, ha, hq⟩
  · rintro ⟨a, ha, hq⟩
    exact ⟨a, bytes, ⟨ha, rfl⟩, hq⟩

theorem reads_ensure_bind {Q : β → Bytes → Bytes → Prop} {c : Prop} [Decidable c] {msg : String}
    {f : Unit → Act (Duplex χ) β} (he : E []) (hf : c → Reads (f ()) bytes Q E) :
    Reads (liftM (ensure c msg) >>= f) bytes (fun b w rest => c ∧ Q b w rest) E := by
  have h := reads_lift_bind (x := ensure c msg) (Q := fun _ => Q) (f := f) he fun a ha =>
    hf ((Res.ensure_ok_iff _ _ _).1 ha)
  refine h.congr fun b w rest => ⟨?_, ?_⟩
  · rintro ⟨a, ha, hq⟩
    exact ⟨(Res.ensure_ok_iff _ _ _).1 ha, hq⟩
  · rintro ⟨hc, hq⟩
    exact ⟨(), (Res.ensure_ok_iff _ _ _).2 hc, hq⟩

theorem reads_write_bind {Q : β → Bytes → Bytes → Prop} {b : Bytes} {f : Unit → Act (Duplex χ) β}
    (hf : Reads (f ()) bytes Q (fun w => E (b ++ w))) :
    Reads (write b >>= f) bytes (fun a w rest => ∃ w', w = b ++ w' ∧ Q a w' rest) E := by
  have hb : Reads (write b : Act (Duplex χ) Unit) bytes (fun _ w rest => w = b ∧ rest = bytes) E :=
    reads_write b
  have h := reads_bind (Q := fun _ _ => Q) (f := f) hb fun _ w rest hp => by
    rw [hp.1, hp.2]
    exact hf
  refine h.congr fun a w rest => ⟨?_, ?_⟩
  · rintro ⟨_, _, _, w', ⟨rfl, rfl⟩, hq, rfl⟩
    exact ⟨w', rfl, hq⟩
  · rintro ⟨w', rfl, hq⟩
    exact ⟨(), b, bytes, w', ⟨rfl, rfl⟩, hq, rfl⟩

theorem reads_ite {P' : α → Bytes → Bytes → Prop} {c : Prop} [Decidable c]
    {x y : Act (Duplex χ) α} (hx : c → Reads x bytes P E) (hy : ¬ c → Reads y bytes P' E) :
    Reads (if c then x else y) bytes
      (fun a w rest => (c ∧ P a w rest) ∨ (¬ c ∧ P' a w rest)) E := by
  split
  · next hc => exact (hx hc).congr fun a w rest => by simp [hc]
  · next hc => exact (hy hc).congr fun a w rest => by simp [hc]

/-- The pieces themselves must not matter. -/
theorem reads_getReader {Q : β → Bytes → Bytes → Prop} {f : List Bytes → Act (Duplex χ) β}
    (hf : ∀ reader, reader.flatten = bytes → Reads (f reader) bytes Q E) :
    Reads (getReader >>= f) bytes Q E := by
  have hrun : ∀ st : Duplex χ, (getReader >>= f) st = f st.reader st := fun _ => rfl
  refine ⟨fun st b st' hst h => ?_, fun st b w rest hst hq => ?_, fun st e st' hst h => ?_⟩
  · exact (hf st.reader hst).sound st b st' hst h
  · rw [hrun]
    exact (hf st.reader hst).complete st b w rest hst hq
  · exact (hf st.reader hst).fault st e st' hst h

end
