import FingerprintBridge.H1.Confinement
import FingerprintBridge.H2.Confinement

/-!
# Authority confinement

Over both protocols: whatever becomes of a connection, the origin is told no authority
but its own.
-/

open HpackWire (HpackCrate boundedCrate boundedCrate_correct)

/-- **Authority confinement.**  Over HTTP/1.1, for every result of the request loop: it
wrote messages it accepted and at most a part of one more, and who reads their octets,
or a beginning of these, finds no head but those with one `Host`, the upstream.  Over
HTTP/2, on every schedule of the two tasks: the origin decodes the header blocks of the
frames it was sent, or of the first of them, to confined headers, and a step that
fails writes nothing. -/
theorem connection_confined (D : HpackCrate) (table : D.Decoder → Hpack.DynamicTable)
    (hD : D.Correct table) (U : UrlCrate) (m : Mapping U) :
    (∀ accepts st st', st.output = [] →
      (H1.requests m accepts st = .ok () st' ∨ ∃ e, H1.requests m accepts st = .error e st') →
        (∃ xs ys rest last, H1.Forwarded m st.reader.flatten st'.output xs ys rest last) ∧
          H1.Confined m st'.output ∧
          ∀ w h, w <+: st'.output → H1.ReadsHead w h → H1.OnlyUpstream m h) ∧
    ∀ client origin schedule,
      (∃ fs, H2.Stream (fs.flatMap H2.Frame.encode) fs ∧
        (((H2.Bridge.new D client origin).run m schedule).requests.output = [] ∧ fs = [] ∨
          ((H2.Bridge.new D client origin).run m schedule).requests.output =
            H2.PREFACE ++ fs.flatMap H2.Frame.encode) ∧
        ∀ fs', fs' <+: fs → ∃ hss T,
          H2.decodeBlocks .init (H2.blocksFrom none fs') = some (hss, T) ∧
            ∀ hs ∈ hss, HpackWire.Confined m hs) ∧
      ∀ r e, ((H2.Bridge.new D client origin).run m schedule).ended = none →
        (((H2.Bridge.new D client origin).run m schedule).step m r).ended = some (.error e) →
        ∀ r', ((((H2.Bridge.new D client origin).run m schedule).step m r).task r').output =
          (((H2.Bridge.new D client origin).run m schedule).task r').output := by
  refine ⟨fun accepts st st' hst h => H1.requests_confined m accepts st st' hst h, ?_⟩
  intro client origin schedule
  refine ⟨H2.requests_confined hD m client origin schedule, fun r e hlive hend r' => ?_⟩
  exact H2.step_failed m _ r e hlive hend r'

/-- A request to another authority. -/
def foreignStream : Bytes :=
  H2.PREFACE ++ H2.Frame.encode
    { kind := 1, flags := 5, stream := 1, payload := [0x82, 0x87, 0x84, 0x41, 0x06] ++ ascii "c.test" }

theorem connection_confined_sample :
    (∃ st', H1.requests sampleMapping (fun _ => true) H1.sampleRequests = .ok () st' ∧
      ∀ w h, w <+: st'.output → H1.ReadsHead w h → H1.OnlyUpstream sampleMapping h) ∧
    ∃ e, (((H2.Bridge.new boundedCrate foreignStream []).run sampleMapping [false]).step
        sampleMapping false).ended = some (.error e) ∧
      (((H2.Bridge.new boundedCrate foreignStream []).run sampleMapping [false]).step
        sampleMapping false).requests.output =
        ((H2.Bridge.new boundedCrate foreignStream []).run sampleMapping [false]).requests.output := by
  obtain ⟨h1, h2⟩ := connection_confined boundedCrate id boundedCrate_correct _ sampleMapping
  obtain ⟨st', hrun⟩ := (Act.value?_eq_some_iff (H1.requests sampleMapping fun _ => true)
    H1.sampleRequests ()).1 (by decide +kernel)
  have hend : (((H2.Bridge.new boundedCrate foreignStream []).run sampleMapping [false]).step
      sampleMapping false).ended = some (.error (.err "authority does not match configured B")) := by
    decide +kernel
  have hlive : ((H2.Bridge.new boundedCrate foreignStream []).run sampleMapping
      [false]).ended = none := by decide +kernel
  refine ⟨⟨st', hrun, ?_⟩, _, hend, (h2 foreignStream [] [false]).2 false _ hlive hend false⟩
  exact (h1 _ _ st' rfl (Or.inl hrun)).2.2
