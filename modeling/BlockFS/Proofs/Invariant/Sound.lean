import BlockFS.Proofs.Invariant.Creation
import BlockFS.Proofs.Invariant.Moves

/-!
Every operation keeps a sound content sound: the effects that it decides on are allowed, and once
they are carried out the bitmaps and counters agree again with the blocks in use.
-/

set_option autoImplicit false
set_option relaxedAutoImplicit false

namespace BlockFS.Content

variable {c c' : Content} {diskSize : UInt32}

/-- Effects may be carried out, and lead to a sound content. -/
def Restores (c : Content) (diskSize : UInt32) (effects : List Effect) : Prop :=
  Effect.AllAllowed effects c ∧ (c.after effects).Sound diskSize

theorem Restores.append {first second : List Effect} (hfirst : Effect.AllAllowed first c)
    (hsecond : Restores (c.after first) diskSize second) :
    Restores c diskSize (first ++ second) := by
  refine ⟨Effect.allAllowed_append.mpr ⟨hfirst, hsecond.1⟩, ?_⟩
  rw [after_append]
  exact hsecond.2

theorem Tracks.growth {used : UInt32 → Prop} (h : c.Tracks used) (hfits : c.volume.bitmap.Fits)
    (hsize : bitmapId.toNat < c.disk.size) {wanted : Nat} {blocks : List UInt32}
    (hoffers : c.volume.bitmap.Offers wanted blocks) :
    Effect.AllAllowed (Effect.growth blocks) c ∧
      (c.after (Effect.growth blocks)).Tracks fun block => used block ∨ block ∈ blocks := by
  rw [Effect.growth]
  split
  · rename_i hempty
    rw [List.isEmpty_iff.mp hempty]
    exact ⟨trivial, h.congr fun block => by simp⟩
  · exact h.allocate hfits hsize hoffers

namespace Sound

variable (h : c.Sound diskSize)

include h

theorem restores_move {effects : List Effect} (hmove : Move c diskSize effects) :
    Restores c diskSize effects := by
  cases hmove with
  | nothing => exact ⟨trivial, h⟩
  | rewrite hwritten huse =>
    exact ⟨hwritten.allowed, hwritten.mounted, (hwritten.tracks h.tracks).congr huse⟩
  | @release effect blocks hwritten hnodup hrefers huse =>
    refine Restores.append hwritten.allowed ?_
    refine hwritten.mounted.sound_deallocate (hwritten.tracks h.tracks) hnodup ?_
      huse
    intro id hid
    obtain ⟨place, hplace⟩ := hrefers id hid
    obtain ⟨hlow, hhigh⟩ := h.mounted.consistent.bounds h.mounted.low hplace
    exact ⟨UInt32.le_trans (by decide) hlow, hhigh, Disk.inUse_of_refers hplace⟩
  | @extend id now offset bytes blocks hextends hoffers =>
    obtain ⟨hallowed, htracks⟩ :=
      h.tracks.growth h.mounted.fits h.mounted.bitmap_lt_size hoffers
    obtain ⟨hmounted, hsame⟩ := h.mounted.bookkeeping fun _ => Effect.bookkeeping_growth
    have hextends' := hextends.of_sameTree hsame
    refine Restores.append hallowed ?_
    rw [← hsame.inode_eq hextends.reachable]
    obtain ⟨hdata, hsame'⟩ := hextends'.written_data hmounted now fun _ hmem => hmem
    have hwritten := (hextends'.written_store hmounted now).append hdata
    refine ⟨hwritten.allowed, hwritten.mounted, (hwritten.tracks htracks).congr ?_⟩
    intro block
    rw [← hsame.inUse_iff, ← hextends'.inUse_iff hmounted now]
    exact hsame'.inUse_iff

theorem restores_create {now permissions : UInt32} {text : String} {type : FileType} {owner : Owner}
    {update : Update UInt32}
    (hplan : (c.volume.create now text permissions type owner).answer c.disk = .ok update) :
    Restores c diskSize update.effects := by
  obtain ⟨path, name, parent, k, id, blank, -, -, hcreates, hfit, rfl⟩ := h.safe.of_create hplan
  have hoffers := Bitmap.offers_of_firstFit h.mounted.fits hfit
  have hwritten := hcreates.written h.mounted permissions now owner
  rw [← hwritten.volume] at hoffers
  exact Restores.append hwritten.allowed (hwritten.mounted.sound_allocate
    (hwritten.tracks h.tracks) hoffers (hcreates.inUse_iff h.mounted permissions now owner))

/-- Whatever a call decides to change, carrying it out leaves a sound content. -/
theorem restores_request {now : UInt32} {request : Request} {effects : List Effect}
    (hplan : (request.effects c.volume now).answer c.disk = .ok effects) :
    Restores c diskSize effects := by
  by_cases hcreate : request.IsCreate
  · cases request with
    | create path permissions type owner =>
      obtain ⟨update, hupdate, rfl⟩ := Query.answer_map_eq_ok.mp hplan
      exact h.restores_create hupdate
    | _ => exact hcreate.elim
  · exact h.restores_move (h.safe.move_request hcreate hplan)

end Sound

end BlockFS.Content
