import Metaspace.Proofs.FieldType.Descriptors
import Metaspace.Proofs.Registry.Defining
import Metaspace.Proofs.Registry.Removal

set_option autoImplicit false

namespace Metaspace.Registry

variable {σ : Type} {rule : Registry σ → ClassDefinition → Prop} {before after : Registry σ}

/-- What the operations of a registry make of it if callers insert only what the rule lets them.
Sources that change the registry while they are asked keep to it as well. -/
inductive Develops (rule : Registry σ → ClassDefinition → Prop) : Registry σ → Registry σ → Prop
  where
  | refl (r : Registry σ) : Develops rule r r
  | newLoader {r s t : Registry σ} {name : String} {sources : List σ} {id : LoaderId} :
      Develops rule r s → s.newLoader? name sources = some (id, t) → Develops rule r t
  | insert {r s t : Registry σ} {d : ClassDefinition} {definition : Definition} :
      Develops rule r s → rule s d → s.insert d = .ok (definition, t) → Develops rule r t
  | derive {r s : Registry σ} (component : ClassDescriptor) (dimensions : Nat) :
      Develops rule r s → Develops rule r (s.deriveArray component dimensions).2
  | load {r s : Registry σ} {ω : Type} (ask : Asking σ ω) (outside : ω) (loader : LoaderId)
      (name : String) : Develops rule r s →
      (∀ source name state, Develops rule state.1 (ask source name state).2.1) →
      Develops rule r (Registry.load ask loader name (s, outside)).2.1
  | removeBatch {r s : Registry σ} (ids : List ClassId) :
      Develops rule r s → Develops rule r (s.removeBatch ids).2
  | unloadLoaders {r s : Registry σ} (ids : List LoaderId) :
      Develops rule r s → Develops rule r (s.unloadLoaders ids).2

abbrev Undergoes : Registry σ → Registry σ → Prop := Develops fun _ _ => True

/-- Callers define ordinary classes or repeat the kind of a class that is or was registered. -/
abbrev Evolves : Registry σ → Registry σ → Prop := Develops fun r d => r.Genuine d.kind

def Faithful (rule : Registry σ → ClassDefinition → Prop) : Prop :=
  ∀ r d, rule r d → r.Genuine d.kind

abbrev Builds : Registry σ → Registry σ → Prop := Develops fun _ _ => False

def Reachable (registry : Registry σ) : Prop :=
  ∃ bootSources, Undergoes (Registry.new bootSources) registry

theorem Develops.trans {a b c : Registry σ} (hab : Develops rule a b) (hbc : Develops rule b c) :
    Develops rule a c := by
  induction hbc with
  | refl => exact hab
  | newLoader _ hnew ih => exact (ih hab).newLoader hnew
  | insert _ hrule hinsert ih => exact (ih hab).insert hrule hinsert
  | derive component dimensions _ ih => exact (ih hab).derive component dimensions
  | load ask outside loader name _ hask ih _ => exact (ih hab).load ask outside loader name hask
  | removeBatch ids _ ih => exact (ih hab).removeBatch ids
  | unloadLoaders ids _ ih => exact (ih hab).unloadLoaders ids

theorem Develops.mono {rule' : Registry σ → ClassDefinition → Prop}
    (hsub : ∀ r d, rule r d → rule' r d) (h : Develops rule before after) :
    Develops rule' before after := by
  induction h with
  | refl r => exact .refl r
  | newLoader _ hnew ih => exact ih.newLoader hnew
  | insert _ hrule hinsert ih => exact ih.insert (hsub _ _ hrule) hinsert
  | derive component dimensions _ ih => exact ih.derive component dimensions
  | load ask outside loader name _ _ ih ihask => exact ih.load ask outside loader name ihask
  | removeBatch ids _ ih => exact ih.removeBatch ids
  | unloadLoaders ids _ ih => exact ih.unloadLoaders ids

/-- What each operation keeps. Deriving and loading add classes of their own, one at a time. -/
structure Invariant (rule : Registry σ → ClassDefinition → Prop) (P : Registry σ → Prop) :
    Prop where
  indexed : ∀ {r : Registry σ}, P r → r.Indexed
  newLoader : ∀ {r s : Registry σ} {name : String} {sources : List σ} {id : LoaderId}, P r →
    r.newLoader? name sources = some (id, s) → P s
  insert : ∀ {r : Registry σ} {d : ClassDefinition} {c : ClassDescriptor}, P r → rule r d →
    r.Entered d c → P (r.adding c)
  derive : ∀ {r : Registry σ} {component c : ClassDescriptor} {hdimensions}, P r →
    r.get? component.id = some component → r.Entered (.arrayOver component hdimensions) c →
    P (r.adding c)
  load : ∀ {r : Registry σ} {name : String} {loader : LoaderId} {size : Nat} {c : ClassDescriptor},
    P r → FieldType.ofName? name = some (.object name) →
    r.Entered (.ordinary (.object name) loader size) c → P (r.adding c)
  removeBatch : ∀ {r : Registry σ} (ids : List ClassId), P r → P (r.removeBatch ids).2
  unloadLoaders : ∀ {r : Registry σ} (ids : List LoaderId), P r → P (r.unloadLoaders ids).2

theorem Invariant.develops {P : Registry σ → Prop} (hP : Invariant rule P)
    (h : Develops rule before after) (hbefore : P before) : P after := by
  induction h with
  | refl => exact hbefore
  | newLoader _ hnew ih => exact hP.newLoader (ih hbefore) hnew
  | @insert r s t d definition _ hrule hinsert ih =>
    have hs := ih hbefore
    rcases insert_cases (hP.indexed hs) d with ⟨e, heq⟩ | ⟨c, heq, -⟩ | ⟨c, heq, hc⟩
    · rw [heq] at hinsert
      contradiction
    · rw [heq] at hinsert
      obtain ⟨-, rfl⟩ := Prod.mk.inj (Except.ok.inj hinsert)
      exact hs
    · rw [heq] at hinsert
      obtain ⟨-, rfl⟩ := Prod.mk.inj (Except.ok.inj hinsert)
      exact hP.insert hs hrule hc
  | derive component dimensions _ ih =>
    exact (deriveArray_keeps (fun _ => hP.indexed) hP.derive (ih hbefore) component dimensions).1
  | load ask outside loader name _ _ ih ihask =>
    by_cases hname : ∃ other, FieldType.ofName? name = some (.object other)
    · obtain ⟨other, hother⟩ := hname
      obtain ⟨rfl, -⟩ := FieldType.legible_of_ofName? hother
      -- what a source does while it is asked is a run of its own
      exact (load_keeps ask (fun _ => hP.indexed) (fun source name state => ihask source name state)
        loader other (fun _ _ _ hr hc => hP.load hr hother hc) (_, outside) (ih hbefore)).1
    · rw [load_of_unnamed fun other hother => hname ⟨other, hother⟩]
      exact ih hbefore
  | removeBatch ids _ ih => exact hP.removeBatch ids (ih hbefore)
  | unloadLoaders ids _ ih => exact hP.unloadLoaders ids (ih hbefore)

theorem layered_invariant (rule : Registry σ → ClassDefinition → Prop) (before : Registry σ) :
    Invariant rule fun r => r.Layered ∧ Outgrows before r where
  indexed h := h.1.toIndexed
  newLoader h hnew := ⟨h.1.newLoader? hnew, h.2.trans (outgrows_newLoader? hnew)⟩
  insert h _ hc := ⟨hc.layered h.1, h.2.trans hc.toFresh.outgrows⟩
  derive h _ hc := ⟨hc.layered h.1, h.2.trans hc.toFresh.outgrows⟩
  load h _ hc := ⟨hc.layered h.1, h.2.trans hc.toFresh.outgrows⟩
  removeBatch ids h :=
    have hevicts := h.1.toIndexed.removeBatch ids
    ⟨hevicts.layered h.1, h.2.trans hevicts.outgrows⟩
  unloadLoaders ids h :=
    have hdrops := h.1.toIndexed.unloadLoaders ids
    ⟨hdrops.layered h.1, h.2.trans hdrops.outgrows⟩

/-- Whatever callers insert, array classes stay above their components, and what is registered keeps
its identity. -/
theorem Develops.layered (h : Develops rule before after) (hbefore : before.Layered) :
    after.Layered ∧ Outgrows before after :=
  (layered_invariant rule before).develops h ⟨hbefore, .refl before⟩

theorem coherent_invariant (hrule : Faithful rule) : Invariant rule Coherent where
  indexed h := h.toIndexed
  newLoader h hnew := h.newLoader? hnew
  insert h hinsert hc := hc.coherent h (hrule _ _ hinsert)
  derive h hget hc := hc.coherent h (genuine_arrayOver hget _)
  load h _ hc := hc.coherent h trivial
  removeBatch ids h := (h.toIndexed.removeBatch ids).coherent h
  unloadLoaders ids h := (h.toIndexed.unloadLoaders ids).coherent h

theorem Evolves.keeps (h : Evolves before after) (hbefore : before.Coherent) :
    after.Coherent ∧ Outgrows before after :=
  ⟨(coherent_invariant fun _ _ hkind => hkind).develops h hbefore, (h.layered hbefore.toLayered).2⟩

theorem Reachable.layered {registry : Registry σ} (h : registry.Reachable) :
    registry.Layered := by
  obtain ⟨bootSources, hundergoes⟩ := h
  exact (hundergoes.layered (new_coherent bootSources).toLayered).1

end Metaspace.Registry
