import FingerprintBridge.Fingerprint.Evidence
import FingerprintBridge.Lib.StableSort

/-!
# `scripts/order_policy.py`: the order form of a ClientHello

`tls_order_form` sorts the extensions of what the bridge wrote about a hello, after it has
checked that JA3 describes the fields.  Two hellos have one form exactly if they differ
in the order of their extensions alone (`tls_form_waives_order`): their ciphers, groups,
signature algorithms and key shares stay in place.
-/

namespace OrderPolicy

open Tls

/-- `json.dumps` of a text, which `json.loads` inverts. -/
structure JsonModule where
  dumps : Str → Str
  dumps_inj : Function.Injective dumps

/-- `json.dumps(value, sort_keys=True)` of an entry of `other_extensions`. -/
def dumpsEntry (J : JsonModule) (value : UInt16 × Str) : Str :=
  '[' :: (decimal value.1.toNat ++ [',', ' '] ++ J.dumps value.2 ++ [']'])

/-- `md5` is `hashlib.md5(..).hexdigest()`; a failing `assert` is an error. -/
def tlsOrderForm (J : JsonModule) (md5 : Bytes → Str) (tls : Evidence) : Res Evidence := do
  let original := tls.fields.ja3String
  ensure (tls.ja3String = original) "JA3 string does not describe captured fields"
  ensure (tls.ja3 = md5 (utf8 original)) "incorrect JA3 digest"
  let fields := { tls.fields with
    extensions := sortedBy (fun n => n.toNat) tls.fields.extensions
    otherExtensions := sortedBy (dumpsEntry J) tls.fields.otherExtensions }
  return { tls with
    ja3 := md5 (utf8 fields.ja3String), ja3String := fields.ja3String, fields := fields }

/-- The extensions of `h'` are those of `h` in any order, and so are their digests. -/
structure ExtensionOrder (h h' : TlsHello) : Prop where
  extensions : h.extensions.Perm h'.extensions
  otherExtensions : h.otherExtensions.Perm h'.otherExtensions
  rest : h' = { h with extensions := h'.extensions, otherExtensions := h'.otherExtensions }

theorem dumpsEntry_inj (J : JsonModule) : Function.Injective (dumpsEntry J) := by
  rintro ⟨m, s⟩ ⟨n, t⟩ h
  obtain ⟨-, h⟩ := List.cons.inj h
  simp only [List.append_assoc, List.cons_append, List.nil_append] at h
  -- the number ends before the comma
  have hcut : ∀ (x y : Str) (a b : Str), ',' ∉ x → ',' ∉ y → x ++ ',' :: a = y ++ ',' :: b →
      x = y ∧ a = b := by
    intro x
    induction x with
    | nil =>
      intro y a b _ hy heq
      cases y with
      | nil => exact ⟨rfl, (List.cons.inj heq).2⟩
      | cons d y => exact absurd (List.cons.inj heq).1 (fun hd => hy (hd ▸ List.mem_cons_self))
    | cons c x ih =>
      intro y a b hx hy heq
      cases y with
      | nil => exact absurd (List.cons.inj heq).1 (fun hc => hx (hc ▸ List.mem_cons_self))
      | cons d y =>
        obtain ⟨rfl, hrest⟩ := List.cons.inj heq
        obtain ⟨rfl, hab⟩ := ih y a b (fun hm => hx (List.mem_cons_of_mem _ hm))
          (fun hm => hy (List.mem_cons_of_mem _ hm)) hrest
        exact ⟨rfl, hab⟩
  obtain ⟨hnum, htext⟩ := hcut _ _ _ _ (not_mem_decimal _ _ (by decide))
    (not_mem_decimal _ _ (by decide)) h
  have hs := List.append_cancel_right (List.cons.inj htext).2
  exact Prod.ext (UInt16.toNat_inj.1 (decimal_inj hnum)) (J.dumps_inj hs)

/-- Sorting by a key that tells all apart leaves the elements. -/
theorem sortedBy_eq_iff_perm {α κ : Type} [LinearOrder κ] {key : α → κ}
    (hkey : Function.Injective key) (l l' : List α) :
    sortedBy key l = sortedBy key l' ↔ l.Perm l' := by
  constructor
  · intro h
    exact (sortedBy_perm key l).symm.trans (h ▸ sortedBy_perm key l')
  · intro h
    exact hkey.list_map (map_sortedBy_eq key h)

/-- The form of what the bridge wrote. -/
theorem tlsOrderForm_evidence (J : JsonModule) (C : EvidenceCrates) (h : TlsHello) :
    ∃ e ja4, h.evidence C = .ok e ∧ h.ja4 C.toHexCrate = .ok ja4 ∧
      tlsOrderForm J C.md5 e = .ok (
        let fields := { h with
          extensions := sortedBy (fun n => n.toNat) h.extensions
          otherExtensions := sortedBy (dumpsEntry J) h.otherExtensions }
        { ja3 := C.md5 (utf8 fields.ja3String), ja3String := fields.ja3String, ja4, fields }) := by
  obtain ⟨⟨ja3, text, ja4, fields⟩, he, hfields, hja3, htext, hja4⟩ := h.evidence_ok C
  dsimp only at hfields hja3 htext hja4
  subst hfields hja3 htext
  refine ⟨_, ja4, he, hja4, ?_⟩
  unfold tlsOrderForm
  simp only [ensure, TlsHello.ja3, if_true]
  rfl

/-- **The allowance waives the order of extensions only.**  What the bridge writes of a hello
has a form, and two hellos have the same one exactly if all but the order of their
extensions is the same. -/
theorem tls_form_waives_order (J : JsonModule) (C : EvidenceCrates) (h h' : TlsHello) :
    ∃ e e' form form', h.evidence C = .ok e ∧ h'.evidence C = .ok e' ∧
      tlsOrderForm J C.md5 e = .ok form ∧ tlsOrderForm J C.md5 e' = .ok form' ∧
      (form = form' ↔ ExtensionOrder h h') := by
  obtain ⟨e, ja4, he, hja4, hform⟩ := tlsOrderForm_evidence J C h
  obtain ⟨e', ja4', he', hja4', hform'⟩ := tlsOrderForm_evidence J C h'
  refine ⟨e, e', _, _, he, he', hform, hform', ?_⟩
  have hnat : Function.Injective fun n : UInt16 => n.toNat := fun _ _ => UInt16.toNat_inj.1
  constructor
  · intro heq
    have hfields := congrArg Evidence.fields heq
    have hext := congrArg TlsHello.extensions hfields
    have hother := congrArg TlsHello.otherExtensions hfields
    refine ⟨(sortedBy_eq_iff_perm hnat _ _).1 hext,
      (sortedBy_eq_iff_perm (dumpsEntry_inj J) _ _).1 hother, ?_⟩
    have hrest := congrArg (fun g : TlsHello =>
      { g with extensions := h'.extensions, otherExtensions := h'.otherExtensions }) hfields
    exact hrest.symm
  · rintro ⟨hext, hother, hrest⟩
    have hja : ja4 = ja4' := by
      have hperm : Variation h { h with extensions := h'.extensions } := .extensionOrder h hext.symm
      have hsame : h'.ja4 C.toHexCrate = h.ja4 C.toHexCrate := by
        rw [hrest]
        exact hperm.ja4_eq.symm
      rw [hja4, hja4'] at hsame
      exact (Except.ok.inj hsame).symm
    have hext' := (sortedBy_eq_iff_perm hnat _ _).2 hext
    have hother' := (sortedBy_eq_iff_perm (dumpsEntry_inj J) _ _).2 hother
    have hfields : ({ h with
          extensions := sortedBy (fun n => n.toNat) h.extensions
          otherExtensions := sortedBy (dumpsEntry J) h.otherExtensions } : TlsHello) =
        { h' with
          extensions := sortedBy (fun n => n.toNat) h'.extensions
          otherExtensions := sortedBy (dumpsEntry J) h'.otherExtensions } := by
      rw [hext', hother', hrest]
    simp only [hfields, hja]

end OrderPolicy
