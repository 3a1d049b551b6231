import FingerprintBridge.Tls.Grammar

/-!
# A ClientHello as a whole

Octets that the parser takes are a hello in one way only (`IsHello`), and the parser adds
up its extensions one after the other.
-/

namespace Tls

open Reader

/-- The parts of a hello; `block` is absent where there is no extension block. -/
structure Layout where
  version : UInt16
  random : Bytes
  session : Bytes
  ciphers : List UInt16
  compression : Bytes
  block : Option (List (UInt16 × Bytes))
deriving DecidableEq, Repr

namespace Layout

def extensions (l : Layout) : List (UInt16 × Bytes) := l.block.getD []

def blockOctets : Option (List (UInt16 × Bytes)) → Bytes
  | none => []
  | some es => vec16 (es.flatMap entryOctets)

def octets (l : Layout) : Bytes :=
  be16 l.version ++ (l.random ++ (vec8 l.session ++ (vec16 (l.ciphers.flatMap be16) ++
    (vec8 l.compression ++ blockOctets l.block))))

/-- What the parser knows before the extensions. -/
def start (l : Layout) : TlsHello :=
  { legacyVersion := l.version
    ciphers := l.ciphers.map normalize
    compression := l.compression }

end Layout

/-- `b` is a hello with the parts `l`, each of which fits its length. -/
structure IsHello (b : Bytes) (l : Layout) : Prop where
  octets : b = l.octets
  random : l.random.length = 32
  session : l.session.length < 256
  ciphers : (l.ciphers.flatMap be16).length < 65536
  compression : l.compression.length < 256
  entries : ∀ e ∈ l.extensions, Fits16 e
  block : (l.extensions.flatMap entryOctets).length < 65536

theorem blockOctets_unique {block block' : Option (List (UInt16 × Bytes))}
    (h : ∀ e ∈ block.getD [], Fits16 e) (hlen : ((block.getD []).flatMap entryOctets).length < 65536)
    (h' : ∀ e ∈ block'.getD [], Fits16 e)
    (hlen' : ((block'.getD []).flatMap entryOctets).length < 65536)
    (heq : Layout.blockOctets block = Layout.blockOctets block') : block = block' := by
  match block, block' with
  | none, none => rfl
  | none, some es => cases heq
  | some es, none => cases heq
  | some es, some es' =>
    have hvec : vec16 (es.flatMap entryOctets) ++ [] = vec16 (es'.flatMap entryOctets) ++ [] := by
      rw [List.append_nil, List.append_nil]
      exact heq
    obtain ⟨hes, -⟩ := parses_v16.inj ⟨hlen, rfl⟩ ⟨hlen', rfl⟩ hvec
    rw [parses_entry.flatMap_inj (fun e => List.cons_ne_nil _ _) es es' h h' hes]

/-- Octets are a hello in one way. -/
theorem IsHello.unique {b : Bytes} {l l' : Layout} (h : IsHello b l) (h' : IsHello b l') :
    l = l' := by
  obtain ⟨version, random, session, ciphers, compression, block⟩ := l
  obtain ⟨version', random', session', ciphers', compression', block'⟩ := l'
  have heq := h.octets.symm.trans h'.octets
  simp only [Layout.octets] at heq
  obtain ⟨rfl, h1⟩ := parses_u16.inj rfl rfl heq
  obtain ⟨rfl, h2⟩ := (parses_take 32).inj ⟨rfl, h.random⟩ ⟨rfl, h'.random⟩ h1
  obtain ⟨rfl, h3⟩ := parses_v8.inj ⟨h.session, rfl⟩ ⟨h'.session, rfl⟩ h2
  obtain ⟨hciphers, h4⟩ := parses_v16.inj ⟨h.ciphers, rfl⟩ ⟨h'.ciphers, rfl⟩ h3
  obtain rfl : ciphers = ciphers' := by
    rw [← pairs_flatMap ciphers, hciphers, pairs_flatMap]
  obtain ⟨rfl, h5⟩ := parses_v8.inj ⟨h.compression, rfl⟩ ⟨h'.compression, rfl⟩ h4
  obtain rfl := blockOctets_unique h.entries h.block h'.entries h'.block h5
  rfl

section
variable (D : DigestCrates)

/-- The extensions `es`, added one after the other to `hello`. -/
def addAll (hello : TlsHello) (es : List (UInt16 × Bytes)) : Res (List UInt16 × TlsHello) :=
  es.foldlM (fun state e => extension D state e.1 e.2) ([], hello)

theorem extensions_ok_iff (hello hello' : TlsHello) (b : Bytes) :
    extensions D hello b = .ok hello' ↔
      ∃ es : List (UInt16 × Bytes), (∀ e ∈ es, Fits16 e) ∧ b = es.flatMap entryOctets ∧
        ∃ seen, addAll D hello es = .ok (seen, hello') := by
  have hpass : ∀ s : List UInt16 × TlsHello, Parses (do
      let id ← u16
      let raw ← v16
      extension D s id raw) (fun s' w => ∃ e, Fits16 e ∧ w = entryOctets e ∧
        extension D s e.1 e.2 = .ok s') := by
    intro s
    have h := parses_pass parses_entry (fun s e => extension D s e.1 e.2) s
    simpa only [bind_assoc, pure_bind] using h
  unfold extensions
  rw [Res.bind_ok_iff]
  constructor
  · rintro ⟨⟨seen, h⟩, hr, he⟩
    cases he
    obtain ⟨es, hfit, hb, hf⟩ := (run_untilEnd_iff hpass (fun e => List.cons_ne_nil _ _) _ _ _).1 hr
    exact ⟨es, hfit, hb, seen, hf⟩
  · rintro ⟨es, hfit, hb, seen, hf⟩
    exact ⟨(seen, hello'), (run_untilEnd_iff hpass (fun e => List.cons_ne_nil _ _) _ _ _).2
      ⟨es, hfit, hb, hf⟩, rfl⟩

/-- The end of the hello: no extension block, or one and nothing after it. -/
theorem block_ok_iff (hello h : TlsHello) (b : Bytes) :
    run (do
      if (← rest) = [] then return hello
      else do
        let ext ← v16
        done
        extensions D hello ext) b = .ok h ↔
      ∃ block, b = Layout.blockOctets block ∧ (∀ e ∈ block.getD [], Fits16 e) ∧
        ((block.getD []).flatMap entryOctets).length < 65536 ∧
        ∃ seen, addAll D hello (block.getD []) = .ok (seen, h) := by
  have hunfold : run (do
      if (← rest) = [] then return hello
      else do
        let ext ← v16
        done
        extensions D hello ext) b = run (if b = [] then return hello else do
          let ext ← v16
          done
          extensions D hello ext : Reader TlsHello) b := rfl
  rw [hunfold]
  by_cases hb : b = []
  · subst hb
    rw [if_pos rfl, run_pure]
    constructor
    · intro he
      cases he
      exact ⟨none, rfl, by simp, by simp, [], rfl⟩
    · rintro ⟨block, hblock, -, -, seen, hadd⟩
      match block with
      | none =>
        cases hadd
        rfl
      | some es => cases hblock
  · rw [if_neg hb, run_done_iff parses_v16]
    constructor
    · rintro ⟨ext, ⟨hlen, rfl⟩, hext⟩
      rw [run_lift, extensions_ok_iff] at hext
      obtain ⟨es, hfit, rfl, hadd⟩ := hext
      exact ⟨some es, rfl, hfit, hlen, hadd⟩
    · rintro ⟨block, rfl, hfit, hlen, hadd⟩
      match block with
      | none => exact (hb rfl).elim
      | some es =>
        refine ⟨es.flatMap entryOctets, ⟨hlen, rfl⟩, ?_⟩
        rw [run_lift, extensions_ok_iff]
        exact ⟨es, hfit, rfl, hadd⟩

/-- **What the parser takes**, and what it makes of it. -/
theorem parseHello_ok_iff (b : Bytes) (h : TlsHello) : parseHello D b = .ok h ↔
    ∃ l, IsHello b l ∧ l.ciphers ≠ [] ∧ ∃ seen, addAll D l.start l.extensions = .ok (seen, h) := by
  unfold parseHello
  rw [run_ok_iff]
  constructor
  · rintro ⟨r, hr⟩
    obtain ⟨version, r1, h1, hr1⟩ := (Act.bind_ok_iff _ _ _ _ _).1 hr
    obtain ⟨random, r2, h2, hr2⟩ := (Act.bind_ok_iff _ _ _ _ _).1 hr1
    obtain ⟨session, r3, h3, hr3⟩ := (Act.bind_ok_iff _ _ _ _ _).1 hr2
    rw [← bind_assoc] at hr3
    obtain ⟨words, r4, h4, hr4⟩ := (Act.bind_ok_iff _ _ _ _ _).1 hr3
    obtain ⟨_, r5, h5, hr5⟩ := (Act.bind_ok_iff _ _ _ _ _).1 hr4
    obtain ⟨compression, r6, h6, hr6⟩ := (Act.bind_ok_iff _ _ _ _ _).1 hr5
    obtain ⟨_, rfl, rfl⟩ := (parses_u16 _ _ _).1 h1
    obtain ⟨u, rfl, hu, hrandom⟩ := (parses_take 32 _ _ _).1 h2
    obtain ⟨_, rfl, hsession, rfl⟩ := (parses_v8 _ _ _).1 h3
    obtain ⟨_, rfl, ciphers, hciphers, rfl, rfl⟩ := (parses_words parses_v16 _ _ _).1 h4
    obtain ⟨hne, rfl⟩ := (Act.liftM_ok_iff _ _ _ _).1 h5
    obtain ⟨_, rfl, hcompression, rfl⟩ := (parses_v8 _ _ _).1 h6
    obtain ⟨block, rfl, hfit, hlen, hadd⟩ :=
      (block_ok_iff D _ h r6).1 ((run_ok_iff _ _ _).2 ⟨r, hr6⟩)
    rw [hu]
    refine ⟨⟨version, random, session, ciphers, compression, block⟩,
      ⟨rfl, hrandom, hsession, hciphers, hcompression, hfit, hlen⟩, ?_, hadd⟩
    rintro rfl
    exact (Res.ensure_ok_iff _ _ _).1 hne rfl
  · rintro ⟨l, hl, hne, hadd⟩
    obtain ⟨r, hr⟩ := (run_ok_iff _ _ _).1
      ((block_ok_iff D _ h _).2 ⟨l.block, rfl, hl.entries, hl.block, hadd⟩)
    have hwords := fun r => (parses_words parses_v16 _ _ r).2 ⟨_, rfl, l.ciphers, hl.ciphers, rfl, rfl⟩
    have hne' : l.ciphers.map normalize ≠ [] := fun h0 => hne (List.map_eq_nil_iff.1 h0)
    rw [hl.octets]
    refine ⟨r, (Act.bind_ok_iff _ _ _ _ _).2 ⟨_, _, (parses_u16 _ _ _).2 ⟨_, rfl, rfl⟩, ?_⟩⟩
    refine (Act.bind_ok_iff _ _ _ _ _).2 ⟨_, _, (parses_take 32 _ _ _).2 ⟨_, rfl, rfl, hl.random⟩, ?_⟩
    refine (Act.bind_ok_iff _ _ _ _ _).2 ⟨_, _, (parses_v8 _ _ _).2 ⟨_, rfl, hl.session, rfl⟩, ?_⟩
    rw [← bind_assoc]
    refine (Act.bind_ok_iff _ _ _ _ _).2 ⟨_, _, hwords _, ?_⟩
    refine (Act.bind_ok_iff _ _ _ _ _).2
      ⟨(), _, (Act.liftM_ok_iff _ _ _ _).2 ⟨(Res.ensure_ok_iff _ _ _).2 hne', rfl⟩, ?_⟩
    exact (Act.bind_ok_iff _ _ _ _ _).2
      ⟨_, _, (parses_v8 _ _ _).2 ⟨_, rfl, hl.compression, rfl⟩, hr⟩

end

end Tls
