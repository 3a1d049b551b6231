import FingerprintBridge.H1.Exchange
import FingerprintBridge.H2.Atomic

/-!
# Rejected heads leave no trace

Over both protocols: where a head or a header group fails, at whatever point of it, the
other side was sent what was made of the messages before it and nothing of the one that failed.
-/

open HpackWire (HpackCrate boundedCrate)

/-- **Rejected heads leave no trace.**  A failed HTTP/2 direction wrote what it writes for the
frames and groups before the one it failed on, and it would have ended well without that
one.  A task of the HTTP/1.1 bridge that fails, on any schedule, either did so at a head,
with the messages before it whole and nothing of the head written, or in the body of a
message the head of which had passed. -/
theorem rejections_traceless (D : HpackCrate) (U : UrlCrate) (m : Mapping U) :
    (∀ response loads input other e st,
      H2.direction m response loads (H2.Task.new D input other) = .error e st →
        (H2.preface response (H2.Task.new D input other) = .error e st ∧ st.output = []) ∨
          ∃ xs outs rest st0,
            H2.FailedAfter m response loads input other e st xs outs rest st0) ∧
    ∀ client origin schedule,
      ((H1.Bridge.new client origin).run m schedule).ended = none → ∀ r e,
        (((H1.Bridge.new client origin).run m schedule).step m r).ended = some (.error e) →
          H1.Rejected m client origin ((H1.Bridge.new client origin).run m schedule) e r ∨
            ∃ x, H1.FailedIn m ((H1.Bridge.new client origin).run m schedule) r x := by
  refine ⟨fun response loads input other e st h =>
    H2.direction_atomic m response loads input other e st h, ?_⟩
  intro client origin schedule hlive r e hend
  obtain ⟨qs, received, rs, h⟩ := H1.run_exchanged m client origin schedule hlive
  exact h.fails m hlive hend

/-- A frame that passes, and a group cut off by the end of the stream. -/
def cutStream : Bytes :=
  H2.PREFACE ++ [{ kind := 4, flags := 1, stream := 0, payload := [] },
    { kind := 1, flags := 0, stream := 1, payload := [0x82] : H2.Frame }].flatMap H2.Frame.encode

/-- A request that passes, and one to another authority. -/
def foreignRequests : Bytes :=
  sectionOf [ascii "GET / HTTP/1.1", ascii "Host: b.test:8443"] ++
    sectionOf [ascii "GET / HTTP/1.1", ascii "Host: c.test"]

theorem rejections_traceless_sample :
    (∃ e, ∃ st st0 : H2.Task boundedCrate, ∃ xs outs rest,
      H2.FailedAfter sampleMapping false (fun _ => .new) cutStream .new e st xs outs rest st0) ∧
    ∃ e, H1.Rejected sampleMapping [foreignRequests] []
      ((H1.Bridge.new [foreignRequests] []).run sampleMapping [false, false, false]) e false := by
  obtain ⟨h2, h1⟩ := rejections_traceless boundedCrate _ sampleMapping
  constructor
  · have hnone : (H2.direction sampleMapping false fun _ => .new).value?
        (H2.Task.new boundedCrate cutStream .new) = none := by decide +kernel
    obtain ⟨st1, hpre⟩ := (Act.value?_eq_some_iff (H2.preface false)
      (H2.Task.new boundedCrate cutStream .new) ()).1 (by decide +kernel)
    cases hrun : H2.direction sampleMapping false (fun _ => .new)
      (H2.Task.new boundedCrate cutStream .new) with
    | ok u st =>
      rw [(Act.value?_eq_some_iff _ _ _).2 ⟨st, hrun⟩] at hnone
      cases hnone
    | error e st =>
      rcases h2 _ _ _ _ _ _ hrun with ⟨hfail, -⟩ | ⟨xs, outs, rest, st0, h⟩
      · rw [hpre] at hfail
        cases hfail
      · exact ⟨e, st, st0, xs, outs, rest, h⟩
  · have hlive : ((H1.Bridge.new [foreignRequests] []).run sampleMapping
        [false, false, false]).ended = none := by decide +kernel
    have hend : (((H1.Bridge.new [foreignRequests] []).run sampleMapping
        [false, false, false]).step sampleMapping false).ended =
          some (.error (.err "authority does not match configured B")) := by decide +kernel
    rcases h1 _ _ _ hlive false _ hend with h | ⟨x, hx, -⟩
    · exact ⟨_, h⟩
    · have hnil : ((H1.Bridge.new [foreignRequests] []).run sampleMapping
          [false, false, false]).current false = [] := by decide +kernel
      rw [hnil] at hx
      cases hx
