import Dxb.Endpoint.Target
import Dxb.Proofs.Endpoint.Designators
import Dxb.Proofs.Endpoint.NameSpelling

/-!
# Which texts name an endpoint

An endpoint is written with the sigil of its kind, its name, and an instance behind a slash.  Sigils
overlap, and the longest one counts.  `Identity.Spelled` is this grammar: what a text is read as is
what it spells (`identity_ofText?_iff`).  The canonical text is read as what it was built of, but
for a person that is named like the rest of a longer sigil (`ofText?_canonical`), and no text is
read as such a person (`leads_canonical`).

    identity <$> ofText? text = .ok i → identity <$> ofText? i.canonical = .ok i
                                                            (ofText?_canonical_identity)
    Target.ofText? text none none = .endpoint <$> ofText? text               (target_ofText?)
-/

namespace Dxb

/-! ## Sigils -/

namespace EndpointKind

/-- The sigil of a kind is the longest one that a text begins with. -/
def Leads (k : EndpointKind) (text : String) : Prop :=
  k.sigil.toList <+: text.toList ∧
    ∀ other : EndpointKind, other.sigil.toList <+: text.toList →
      other.sigil.length ≤ k.sigil.length

theorem singleton_prefix_iff {c : Char} {cs : List Char} : [c] <+: cs ↔ cs.head? = some c := by
  cases cs <;> simp [eq_comm]

/-- Only the sigil of a person is the beginning of longer ones. -/
theorem leads_sigil_append_iff {k : EndpointKind} {rest : String} :
    k.Leads (k.sigil ++ rest) ↔
      (k = .person → rest.toList.head? ≠ some '@' ∧ rest.toList.head? ≠ some '+') := by
  unfold Leads
  rw [String.toList_append]
  constructor
  · rintro ⟨-, hlongest⟩ rfl
    have hid : ¬ ['@'] <+: rest.toList := fun h =>
      absurd (hlongest .id (List.cons_prefix_cons.2 ⟨rfl, h⟩)) (by decide)
    have hinstitution : ¬ ['+'] <+: rest.toList := fun h =>
      absurd (hlongest .institution (List.cons_prefix_cons.2 ⟨rfl, h⟩)) (by decide)
    rw [singleton_prefix_iff] at hid hinstitution
    exact ⟨hid, hinstitution⟩
  · intro h
    refine ⟨List.prefix_append _ _, ?_⟩
    intro other hother
    cases k with
    | institution | id => cases other <;> decide
    | bot =>
      cases other with
      | bot => decide
      | person | institution | id =>
        exact absurd (List.cons_prefix_cons.1 hother).1 (by decide)
    | person =>
      obtain ⟨hid, hinstitution⟩ := h rfl
      cases other with
      | person | bot => decide
      | id => exact absurd (singleton_prefix_iff.1 (List.cons_prefix_cons.1 hother).2) hid
      | institution =>
        exact absurd (singleton_prefix_iff.1 (List.cons_prefix_cons.1 hother).2) hinstitution

theorem split?_sigil_append {k : EndpointKind} {rest : String} (h : k.Leads (k.sigil ++ rest)) :
    split? (k.sigil ++ rest) = some (k, rest) := by
  have hperson := leads_sigil_append_iff.1 h
  unfold split?
  rw [String.toList_append]
  cases k with
  | institution | id | bot => simp [sigil]
  | person =>
    obtain ⟨hid, hinstitution⟩ := hperson rfl
    have hlist : person.sigil.toList ++ rest.toList = '@' :: rest.toList := rfl
    rw [hlist]
    split
    · rename_i tail heq
      rw [List.cons.injEq] at heq
      rw [heq.2] at hid
      exact absurd rfl hid
    · rename_i tail heq
      rw [List.cons.injEq] at heq
      rw [heq.2] at hinstitution
      exact absurd rfl hinstitution
    · rename_i heq
      rw [List.cons.injEq] at heq
      rw [← heq.2, String.ofList_toList]
    · rename_i heq
      rw [List.cons.injEq] at heq
      exact absurd heq.1 (by decide)
    · rename_i hnone _
      exact (hnone _ rfl).elim

/-- A text is split behind the longest sigil it begins with. -/
theorem split?_eq_some_iff {text rest : String} {k : EndpointKind} :
    split? text = some (k, rest) ↔ text = k.sigil ++ rest ∧ k.Leads text := by
  constructor
  · intro h
    have hsplit : text.toList = k.sigil.toList ++ rest.toList ∧ (k = .person →
        rest.toList.head? ≠ some '@' ∧ rest.toList.head? ≠ some '+') := by
      unfold split? at h
      split at h
      · rename_i tail heq
        cases h
        exact ⟨by rw [heq, String.toList_ofList]; rfl, fun hk => by cases hk⟩
      · rename_i tail heq
        cases h
        exact ⟨by rw [heq, String.toList_ofList]; rfl, fun hk => by cases hk⟩
      · rename_i tail hid hinstitution heq
        cases h
        rw [String.toList_ofList]
        refine ⟨heq, fun _ => ⟨fun hhead => ?_, fun hhead => ?_⟩⟩
        · obtain ⟨ys, hys⟩ := List.head?_eq_some_iff.1 hhead
          exact hid ys hys
        · obtain ⟨ys, hys⟩ := List.head?_eq_some_iff.1 hhead
          exact hinstitution ys hys
      · rename_i tail heq
        cases h
        exact ⟨by rw [heq, String.toList_ofList]; rfl, fun hk => by cases hk⟩
      · cases h
    obtain ⟨htext, hperson⟩ := hsplit
    rw [← String.toList_append, String.toList_inj] at htext
    subst htext
    exact ⟨rfl, leads_sigil_append_iff.2 hperson⟩
  · rintro ⟨rfl, hleads⟩
    exact split?_sigil_append hleads

end EndpointKind

/-! ## Identities -/

/-- What an endpoint is asked for by. -/
structure Identity where
  kind : EndpointKind
  slot : NameSlot
  inst : UInt16
deriving DecidableEq

def Endpoint.identity (e : Endpoint) : Identity := ⟨e.kind, e.name.slot, e.inst⟩

namespace Identity

/-- The name in the slot: the digits of an id, and of any other kind the text in front of the
padding. -/
def shown (i : Identity) : String :=
  match i.kind with
  | .id => i.slot.idText
  | _ => (ofUtf8? (NameSlot.trim i.slot.bytes)).getD ""

/-- The text that is built of the kind, the slot and the instance. -/
def canonical (i : Identity) : String :=
  if i.inst = 0 then i.kind.sigil ++ i.shown
  else i.kind.sigil ++ i.shown ++ "/" ++
    Hex.lower [UInt8.ofNat (i.inst.toNat / 256), i.inst.toUInt8]

end Identity

/-- A text spells an identity: the longest sigil, a name padded with NUL, and behind a slash an
instance, if there is a slash. -/
structure Identity.Spelled (i : Identity) (text : String) : Prop where
  sigil : i.kind.Leads text
  parts : ∃ name bytes, NameSpelling i.kind name bytes ∧
    i.slot.bytes = bytes ++ List.replicate (nameSlotSize - bytes.length) 0 ∧
    ((text = i.kind.sigil ++ name ∧ i.inst = 0) ∨
      ∃ inst, text = i.kind.sigil ++ (name ++ "/" ++ inst) ∧
        (InstanceRef.text inst).Designates i.inst)

/-! ## Reading endpoints -/

namespace Endpoint

theorem identity_injective {a b : Endpoint} (h : a.identity = b.identity) : a = b := by
  obtain ⟨aname, ainst⟩ := a
  obtain ⟨bname, binst⟩ := b
  simp only [identity, kind, Identity.mk.injEq] at h
  obtain ⟨hkind, hslot, rfl⟩ := h
  rw [EndpointName.eq_of_slot hkind hslot]

theorem ofName?_eq_ok_iff {kind : EndpointKind} {name : String} {i : InstanceRef} {e : Endpoint} :
    ofName? kind name i = .ok e ↔
      EndpointName.ofText? kind name = .ok e.name ∧ i.resolve? = .ok e.inst := by
  unfold ofName?
  cases EndpointName.ofText? kind name with
  | error fault => exact ⟨nofun, nofun⟩
  | ok n =>
    cases i.resolve? with
    | error fault => exact ⟨nofun, nofun⟩
    | ok inst =>
      constructor
      · intro h
        cases h
        exact ⟨rfl, rfl⟩
      · rintro ⟨hname, hinst⟩
        cases hname
        cases hinst
        rfl

/-- A text ends with the name, or there is a slash behind the name. -/
theorem exists_slash_or (text : String) :
    '/' ∉ text.toList ∨ ∃ name inst, text = name ++ "/" ++ inst ∧ '/' ∉ name.toList := by
  by_cases h : '/' ∈ text.toList
  · obtain ⟨before, after, hsplit, hbefore⟩ := List.eq_append_cons_of_mem h
    refine .inr ⟨String.ofList before, String.ofList after, ?_, by rwa [String.toList_ofList]⟩
    rw [← String.toList_inj, hsplit]
    simp
  · exact .inl h

theorem ofText?_sigil_name {k : EndpointKind} {name : String} (hleads : k.Leads (k.sigil ++ name))
    (hname : '/' ∉ name.toList) : ofText? (k.sigil ++ name) = ofName? k name .main := by
  simp only [ofText?, EndpointKind.split?_sigil_append hleads, splitInstance_of_not_mem hname]

theorem ofText?_sigil_instance {k : EndpointKind} {name inst : String}
    (hleads : k.Leads (k.sigil ++ (name ++ "/" ++ inst))) (hname : '/' ∉ name.toList) :
    ofText? (k.sigil ++ (name ++ "/" ++ inst)) = ofName? k name (.text inst) := by
  simp only [ofText?, EndpointKind.split?_sigil_append hleads, splitInstance_append hname]

/-- A text is read as an endpoint part by part. -/
theorem ofText?_eq_ok_iff {text : String} {e : Endpoint} :
    ofText? text = .ok e ↔ e.kind.Leads text ∧ ∃ name,
      EndpointName.ofText? e.kind name = .ok e.name ∧
        ((text = e.kind.sigil ++ name ∧ e.inst = 0) ∨
          ∃ inst, text = e.kind.sigil ++ (name ++ "/" ++ inst) ∧
            (InstanceRef.text inst).resolve? = .ok e.inst) := by
  constructor
  · intro h
    cases hsplit : EndpointKind.split? text with
    | none =>
      simp only [ofText?, hsplit] at h
      cases h
    | some parts =>
      obtain ⟨k, rest⟩ := parts
      obtain ⟨rfl, hleads⟩ := EndpointKind.split?_eq_some_iff.1 hsplit
      rcases exists_slash_or rest with hrest | ⟨name, inst, rfl, hname⟩
      · rw [ofText?_sigil_name hleads hrest, ofName?_eq_ok_iff] at h
        obtain ⟨hname, hinst⟩ := h
        have hkind : e.kind = k := EndpointName.kind_of_ofText? hname
        rw [hkind]
        exact ⟨hleads, rest, hname, .inl ⟨rfl, (Except.ok.inj hinst).symm⟩⟩
      · rw [ofText?_sigil_instance hleads hname, ofName?_eq_ok_iff] at h
        obtain ⟨hread, hinst⟩ := h
        have hkind : e.kind = k := EndpointName.kind_of_ofText? hread
        rw [hkind]
        exact ⟨hleads, name, hread, .inr ⟨inst, rfl, hinst⟩⟩
  · rintro ⟨hleads, name, hread, hparts⟩
    obtain ⟨bytes, hspelling, -⟩ := EndpointName.exists_ofText?_iff.1 ⟨e.name, hread, rfl⟩
    rcases hparts with ⟨rfl, hinst⟩ | ⟨inst, rfl, hinst⟩
    · rw [ofText?_sigil_name hleads hspelling.slash_not_mem, ofName?_eq_ok_iff, hinst]
      exact ⟨hread, rfl⟩
    · rw [ofText?_sigil_instance hleads hspelling.slash_not_mem, ofName?_eq_ok_iff]
      exact ⟨hread, hinst⟩

/-- What a text is read as is what it spells. -/
theorem identity_ofText?_iff {text : String} {i : Identity} :
    identity <$> ofText? text = .ok i ↔ i.Spelled text := by
  rw [map_eq_ok_iff]
  constructor
  · rintro ⟨e, he, rfl⟩
    obtain ⟨hleads, name, hread, hparts⟩ := ofText?_eq_ok_iff.1 he
    obtain ⟨bytes, hspelling, hslot⟩ := EndpointName.exists_ofText?_iff.1 ⟨e.name, hread, rfl⟩
    simp only [InstanceRef.resolve?_eq_ok_iff] at hparts
    exact ⟨hleads, name, bytes, hspelling, hslot, hparts⟩
  · rintro ⟨hleads, name, bytes, hspelling, hslot, hparts⟩
    obtain ⟨n, hread, hn⟩ := EndpointName.exists_ofText?_iff.2 ⟨bytes, hspelling, hslot⟩
    have hkind : n.kind = i.kind := EndpointName.kind_of_ofText? hread
    refine ⟨⟨n, i.inst⟩, ofText?_eq_ok_iff.2 ?_, ?_⟩
    · simp only [InstanceRef.resolve?_eq_ok_iff, kind, hkind]
      exact ⟨hleads, name, hread, hparts⟩
    · simp only [identity, kind, hkind, hn]

/-- Nothing but the identity goes into the canonical text. -/
theorem canonical_identity (e : Endpoint) : e.identity.canonical = e.canonical := by
  have hshown : e.identity.shown = e.name.text := by
    obtain ⟨name, inst⟩ := e
    cases name with
    | person n | institution n | bot n => exact congrArg (·.getD "") n.ofUtf8?_trim_slot
    | id s => rfl
  unfold Identity.canonical
  rw [hshown]
  rfl

/-- A canonical text is read as what it was built of, if its sigil is not taken for a longer one. -/
theorem ofText?_canonical {e : Endpoint} (h : e.kind.Leads e.canonical) :
    ofText? e.canonical = .ok e := by
  refine ofText?_eq_ok_iff.2 ⟨h, e.name.text, e.name.ofText?_text, ?_⟩
  unfold canonical mainText
  by_cases hmain : e.inst = 0
  · exact .inl ⟨if_pos hmain, hmain⟩
  · refine .inr ⟨e.instanceText, ?_, e.resolve?_instanceText⟩
    rw [if_neg hmain]
    simp only [String.append_assoc]

theorem exists_canonical_eq (e : Endpoint) :
    ∃ suffix, e.canonical = e.kind.sigil ++ (e.name.text ++ suffix) := by
  unfold canonical mainText
  split
  · exact ⟨"", by simp⟩
  · exact ⟨"/" ++ e.instanceText, by simp only [String.append_assoc]⟩

theorem leads_canonical {text : String} {e : Endpoint} (h : ofText? text = .ok e) :
    e.kind.Leads e.canonical := by
  obtain ⟨hleads, name, hread, hparts⟩ := ofText?_eq_ok_iff.1 h
  obtain ⟨suffix, hcanonical⟩ := e.exists_canonical_eq
  obtain ⟨rest, rfl⟩ : ∃ rest, text = e.kind.sigil ++ (name ++ rest) := by
    rcases hparts with ⟨rfl, -⟩ | ⟨inst, rfl, -⟩
    · exact ⟨"", by simp⟩
    · exact ⟨"/" ++ inst, by simp only [String.append_assoc]⟩
  rw [EndpointKind.leads_sigil_append_iff] at hleads
  rw [hcanonical, EndpointKind.leads_sigil_append_iff]
  intro hperson
  obtain ⟨n, hn⟩ : ∃ n, e.name = .person n := by
    cases hname : e.name with
    | person n => exact ⟨n, rfl⟩
    | institution n | bot n | id n =>
      rw [kind, hname] at hperson
      cases hperson
  -- the name of a person is kept as it was written, and is not empty
  rw [hperson, hn] at hread
  obtain ⟨m, hm, hmn⟩ := map_eq_ok_iff.1 hread
  cases hmn
  have hname : n.text = name := TextName.text_of_ofText? hm
  obtain ⟨c, cs, hcs⟩ := List.exists_cons_of_ne_nil (l := n.text.toList) fun hnil =>
    n.nonempty (String.toList_inj.1 hnil)
  have hhead := hleads hperson
  rw [← hname, String.toList_append, hcs] at hhead
  rw [hn, EndpointName.text, String.toList_append, hcs]
  exact hhead

theorem ofText?_canonical_identity {text : String} {i : Identity}
    (h : identity <$> ofText? text = .ok i) : identity <$> ofText? i.canonical = .ok i := by
  obtain ⟨e, he, rfl⟩ := map_eq_ok_iff.1 h
  rw [canonical_identity, ofText?_canonical (leads_canonical he)]
  rfl

/-- Without an instance and a hint a target is read as an endpoint is. -/
theorem target_ofText? (text : String) :
    Target.ofText? text none none = Target.endpoint <$> ofText? text := by
  unfold Target.ofText? ofText?
  cases hsplit : EndpointKind.split? text with
  | none => rfl
  | some parts =>
    obtain ⟨k, rest⟩ := parts
    simp only [Option.map_none, Option.orElse_eq_orElse, Option.orElse_some]
    cases splitInstance rest with
    | mk name inst => cases inst <;> rfl

/-- The texts that are read as endpoints are those of the grammar, each as what it spells.  The
canonical text of what was read is read as the same again, so of two texts that are read the
canonical texts are the same exactly if they name the same.  It is the canonical text of the
endpoint itself, of which there is one for what is named.  A target is read in the same way. -/
theorem ofText?_canonicalizes :
    (∀ (text : String) (i : Identity), identity <$> ofText? text = .ok i ↔ i.Spelled text) ∧
    (∀ (text : String) (i : Identity), identity <$> ofText? text = .ok i →
      identity <$> ofText? i.canonical = .ok i) ∧
    (∀ (text other : String) (i j : Identity), identity <$> ofText? text = .ok i →
      identity <$> ofText? other = .ok j → (i = j ↔ i.canonical = j.canonical)) ∧
    (∀ e : Endpoint, e.identity.canonical = e.canonical) ∧
    (∀ a b : Endpoint, a.identity = b.identity → a = b) ∧
    ∀ text : String, Target.ofText? text none none = Target.endpoint <$> ofText? text := by
  refine ⟨fun _ _ => identity_ofText?_iff, fun _ _ => ofText?_canonical_identity, ?_,
    canonical_identity, fun _ _ => identity_injective, target_ofText?⟩
  intro text other i j hi hj
  constructor
  · intro h
    rw [h]
  · intro h
    have hi' := ofText?_canonical_identity hi
    rw [h, ofText?_canonical_identity hj] at hi'
    exact (Except.ok.inj hi').symm

/-- The id of the byte `ab` with the instance ten, written in two ways. -/
theorem ofText?_canonicalizes_digits :
    ∃ i : Identity, i.canonical = "@@AB/000a" ∧
      identity <$> ofText? "@@ab00/0A" = .ok i ∧ identity <$> ofText? "@@Ab/a" = .ok i ∧
      i.Spelled "@@ab00/0A" ∧ identity <$> ofText? i.canonical = .ok i ∧
      ∃ j : Identity, identity <$> ofText? "@@ab00" = .ok j ∧ i ≠ j := by
  obtain ⟨hspelled, hcanonical, heq, -⟩ := ofText?_canonicalizes
  have hi : identity <$> ofText? "@@ab00/0A" =
      .ok ⟨.id, NameSlot.pad [0xab] (by decide), 10⟩ := by decide +kernel
  have hj : identity <$> ofText? "@@ab00" =
      .ok ⟨.id, NameSlot.pad [0xab] (by decide), 0⟩ := by decide +kernel
  have hother : identity <$> ofText? "@@Ab/a" =
      .ok ⟨.id, NameSlot.pad [0xab] (by decide), 10⟩ := by decide +kernel
  refine ⟨_, ?_, hi, hother, (hspelled _ _).1 hi, hcanonical _ _ hi, _, hj, ?_⟩
  · decide +kernel
  · rw [Ne, heq _ _ _ _ hi hj]
    decide +kernel

end Endpoint

end Dxb
