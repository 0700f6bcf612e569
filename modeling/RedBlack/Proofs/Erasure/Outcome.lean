import RedBlack.Proofs.Exchange
import RedBlack.Proofs.Erasure.Colors
import RedBlack.Proofs.Erasure.Simulation

/-! What an erasure answers and leaves behind. The match takes the entry of the last node of the pass, and that
node goes: its far child, if there is one, is linked in its place. -/
namespace RedBlack.Tree
variable {σ K V : Type} [Storage σ K V] {t : Tree σ} {s : Shape K V} {policy : Policy K} {key : K} {f : Frame K V}
  {rest : Path K V}

open Storage (Rewrites)
open Erasure (Passes)

theorem spliceOk (linked : Linked t (Path.fill (f :: rest) .leaf)) :
    ∃ t₁ store t', t.setSlot rest.owner rest.side f.far.link = .ok t₁ ∧ Linked t₁ (rest.fill f.far) ∧
      Storage.modify t₁.store f.cell.id Node.reset = .ok store ∧
      ({ t₁ with store } : Tree σ).paintRoot .black = .ok t' ∧ Linked t' (rest.fill f.far).blacken ∧
      Storage.get? t'.store f.cell.id = some (.fresh f.cell.key f.cell.value) ∧
      Rewrites (Path.fill (f :: rest) .leaf).ids t.store t'.store := by
  have whole : Linked t (rest.fill (f.fill .leaf)) := linked
  obtain ⟨read, spellsFar, up⟩ := linked.leads
  have names := (Path.idsFill (f :: rest) .leaf).nodup_iff.mp linked.once
  obtain ⟨out, once⟩ := List.nodup_cons.mp names
  have onceLeft : (rest.fill f.far).ids.Nodup := (Path.idsFill rest f.far).nodup_iff.mpr once
  have outLeft : f.cell.id ∉ (rest.fill f.far).ids := fun member =>
    out (by simpa using (Path.idsFill rest f.far).mem_iff.mp member)
  have owner : ∀ id ∈ rest.owner.toList, id ∈ rest.names := fun id named => Path.ownerMem (by simpa using named)
  obtain ⟨-, onceNames, apart⟩ := Path.nodupParts onceLeft
  obtain ⟨t₁, set, leads, writes₁⟩ := up.setSlot onceNames f.far.link
  have linked₁ : Linked t₁ (rest.fill f.far) := by
    refine ⟨spellsFill.mpr ⟨leads, spellsFar.keep writes₁ fun id member named => ?_⟩, onceLeft⟩
    exact apart id member (owner id named)
  have read₁ := (writes₁.elsewhere fun named => out (List.mem_append_right _ (owner _ named))).trans read
  have linked₂ : Linked ({ t₁ with store := Storage.put t₁.store f.cell.id (f.node none).reset } : Tree σ)
      (rest.fill f.far) := ⟨linked₁.spells.keepPut outLeft _, onceLeft⟩
  obtain ⟨t', painted, linked', writes₂⟩ := paintRootOk linked₂
  refine ⟨t₁, _, t', set, linked₁, Storage.modifyOk read₁ _, painted, linked', ?_, ?_⟩
  · rw [writes₂.elsewhere outLeft, Storage.getPutSame read₁]
    simp [Node.reset, Frame.node]
  · have members : ∀ id, id = f.cell.id ∨ id ∈ (rest.fill f.far).ids → id ∈ (Path.fill (f :: rest) .leaf).ids := by
      intro id member
      refine Path.memFill.mpr (.inr ?_)
      simpa [Path.memFill] using member
    have linking := writes₁.widen fun id named => members id (.inr (Path.memFill.mpr (.inr (owner id named))))
    have painting := writes₂.widen fun id named => members id (.inr named)
    exact linking.trans ((Rewrites.one (members _ (.inl rfl)) _).trans painting)

theorem bottomReads (linked : Linked t (Path.fill (f :: rest) .leaf)) :
    t.sideOf rest.owner f.cell.id = .ok rest.side ∧ ∃ left right, Storage.child t.store f.cell.id .left = .ok left ∧
      Storage.child t.store f.cell.id .right = .ok right ∧ (left <|> right) = f.far.link := by
  obtain ⟨read, -, up⟩ := linked.leads
  have names := (Path.idsFill (f :: rest) .leaf).nodup_iff.mp linked.once
  obtain ⟨out, -⟩ := List.nodup_cons.mp names
  refine ⟨up.sideOf fun named => out (List.mem_append_right _ named), _, _, Storage.childRead read .left,
    Storage.childRead read .right, ?_⟩
  cases side : f.side <;> simp [Frame.node, Cell.node, Node.child, Shape.link, side]

structure Exchanged (t : Tree σ) (f : Frame K V) (rest : Path K V) (found : Cell K V) (store : σ) (f' : Frame K V)
    (rest' : Path K V) : Prop where
  linked : Linked ({ t with store } : Tree σ) (Path.fill (f' :: rest') .leaf)
  cell : f'.cell = ⟨f.cell.id, found.key, found.value⟩
  color : f'.color = f.color
  link : f'.far.link = f.far.link
  owner : rest'.owner = rest.owner
  side : rest'.side = rest.side
  left : rest'.fill f'.far = (rest.fill f.far).give found.id f.cell.entry
  even : ∀ h, (Path.fill (f' :: rest') .leaf).BlackHeight h ↔ (Path.fill (f :: rest) .leaf).BlackHeight h
  names : (Path.fill (f' :: rest') .leaf).ids = (Path.fill (f :: rest) .leaf).ids
  writes : Rewrites (Path.fill (f :: rest) .leaf).ids t.store store

theorem exchangeOk {g : Frame K V} (linked : Linked t (Path.fill (f :: rest) .leaf)) (member : g ∈ f :: rest) :
    ∃ store f' rest', (if g.cell.id = f.cell.id then pure t.store else Storage.swapEntries t.store g.cell.id f.cell.id) =
      Except.ok store ∧ Exchanged t f rest g.cell store f' rest' := by
  obtain ⟨readBottom, -, -⟩ := linked.leads
  obtain ⟨below, readMatch⟩ := linked.leads.frame member
  have out : f.cell.id ∉ (rest.fill f.far).ids := by
    have names := (Path.idsFill (f :: rest) .leaf).nodup_iff.mp linked.once
    intro inside
    exact (List.nodup_cons.mp names).1 (by simpa using (Path.idsFill rest f.far).mem_iff.mp inside)
  by_cases same : g.cell.id = f.cell.id
  · have node := Option.some.inj ((same ▸ readMatch).symm.trans readBottom)
    have sameKey : g.cell.key = f.cell.key := by simpa [Frame.node] using congrArg Node.key node
    have sameValue : g.cell.value = f.cell.value := by simpa [Frame.node] using congrArg Node.value node
    exact ⟨t.store, f, rest, if_pos same, linked, by rw [sameKey, sameValue], rfl, rfl, rfl, rfl,
      by rw [same, Shape.giveOut out], fun _ => Iff.rfl, rfl, .none⟩
  · have other : f.cell.id ≠ g.cell.id := Ne.symm same
    obtain ⟨store, swapped, linked₁, -, writes⟩ := linked.swapEntries same readMatch readBottom
    have turned : ((Path.fill (f :: rest) .leaf).give g.cell.id f.cell.entry).give f.cell.id g.cell.entry =
        Path.fill ((f.give g.cell.id f.cell.entry).give f.cell.id g.cell.entry ::
          (rest.give g.cell.id f.cell.entry).give f.cell.id g.cell.entry) .leaf := by
      rw [Path.giveFill, Path.giveFill]
      rfl
    rw [Frame.entryNode, Frame.entryNode, turned] at linked₁
    refine ⟨store, _, _, (if_neg same).trans swapped, linked₁, ?_, rfl, by simp [Frame.give], by simp, by simp, ?_, ?_, ?_,
      writes.widen fun id named => Path.memFill.mpr (.inr ?_)⟩
    · simp [Frame.give, Cell.give, other, Cell.entry]
    · have alone : f.cell.id ∉ ((rest.fill f.far).give g.cell.id f.cell.entry).ids := by simpa using out
      have kept : ((rest.fill f.far).give g.cell.id f.cell.entry).give f.cell.id g.cell.entry =
          (rest.fill f.far).give g.cell.id f.cell.entry := Shape.giveOut alone
      rw [Path.giveFill, Path.giveFill] at kept
      rw [Path.giveFill]
      exact kept
    · intro h
      rw [← turned, Shape.blackHeightGive, Shape.blackHeightGive]
    · rw [← turned, Shape.idsGive, Shape.idsGive]
    · simp only [List.mem_cons, List.not_mem_nil, or_false] at named
      rcases named with rfl | rfl
      · exact Path.frameMem member
      · exact Path.frameMem List.mem_cons_self

theorem unlinkRuns {d : Descent σ} {leaf target : NodeId} {left right link : Option NodeId} {side : Side} {store store' : σ}
    {after t' : Tree σ} (current : d.current = some leaf) (found : d.found = some target)
    (swapped : (if target = leaf then pure d.tree.store else Storage.swapEntries d.tree.store target leaf) = .ok store)
    (onSide : ({ d.tree with store } : Tree σ).sideOf d.parent leaf = .ok side)
    (readLeft : Storage.child store leaf .left = .ok left) (readRight : Storage.child store leaf .right = .ok right)
    (joined : (left <|> right) = link) (set : ({ d.tree with store } : Tree σ).setSlot d.parent side link = .ok after)
    (reset : Storage.modify after.store leaf Node.reset = .ok store')
    (painted : ({ after with store := store' } : Tree σ).paintRoot .black = .ok t') : d.unlink = .ok (leaf, t') := by
  simp only [Descent.unlink, current, found, require]
  split at swapped
  · rename_i same
    cases swapped
    simp [same, onSide, readLeft, readRight, joined, set, reset, painted, bind, Except.bind, pure, Except.pure]
  · rename_i other
    simp [other, swapped, onSide, readLeft, readRight, joined, set, reset, painted, bind, Except.bind, pure, Except.pure]

theorem unlinkOk {d : Descent σ} {g : Frame K V} (shows : Descent.Shows policy key d ⟨f :: rest, .leaf⟩)
    (member : g ∈ f :: rest) (found : d.found = some g.cell.id) :
    ∃ t', d.unlink = .ok (f.cell.id, t') ∧ Linked t' ((rest.fill f.far).give g.cell.id f.cell.entry).blacken ∧
      Storage.get? t'.store f.cell.id = some (.fresh g.cell.key g.cell.value) ∧
      Rewrites (Path.fill (f :: rest) .leaf).ids d.tree.store t'.store := by
  have linked : Linked d.tree (Path.fill (f :: rest) .leaf) := shows.linked
  have parent : d.parent = rest.owner := shows.parent
  have current : d.current = some f.cell.id := shows.current
  obtain ⟨store, f', rest', swapped, exchanged⟩ := exchangeOk linked member
  obtain ⟨linked₁, cell, -, link, owner, side, left, -, names, writes₁⟩ := exchanged
  obtain ⟨onSide, leftLink, rightLink, readLeft, readRight, joined⟩ := bottomReads linked₁
  obtain ⟨t₁, store₁, t', set, -, reset, painted, linked', fresh, writes⟩ := spliceOk linked₁
  simp only [cell, link, owner, side, ← parent] at onSide readLeft readRight joined set reset fresh
  have run := unlinkRuns current found swapped onSide readLeft readRight joined set reset painted
  exact ⟨t', run, left ▸ linked', fresh, writes₁.trans (names ▸ writes)⟩

theorem eraseMissing (linked : Linked t s) (missing : s.find? (policy key) = none) :
    erase policy t key = ⟨[.eraseMissed], .ok (.error .notFound, t)⟩ := by
  have searched := linked.search policy key
  rw [missing] at searched
  simp [erase, searched, Traced.pureEq]

theorem eraseLoop (linked : Linked t s) (held : s.find? (policy key) ≠ none) {log : List Event} {bottom : Path K V}
    (passes : Passes (policy key) (s.descent (policy key) + 1) ⟨[], s⟩ log bottom) :
    ∃ f, ∃ rest : Path K V, ∃ g d, bottom = f :: rest ∧ g ∈ f :: rest ∧ policy key g.cell.key = .eq ∧
      Traced.loop (Descent.round policy key) (passLimit (Storage.slotCount t.store)) (.start t) = ⟨log, .ok d⟩ ∧
      Descent.Shows policy key d ⟨f :: rest, .leaf⟩ ∧ d.found = some g.cell.id ∧ Rewrites s.ids t.store d.tree.store ∧
      ∀ leaf t', d.unlink = .ok (leaf, t') → erase policy t key = ⟨log, .ok (.ok leaf, t')⟩ := by
  obtain ⟨holder, found⟩ := Option.ne_none_iff_exists'.mp held
  have searched := linked.search policy key
  rw [found] at searched
  have enough : s.descent (policy key) + 1 ≤ passLimit (Storage.slotCount t.store) := by
    have limit := linked.descentLePassLimit (policy key)
    omega
  obtain ⟨d, run, shows, writes⟩ := Descent.loopPasses passes (Descent.startShows linked held) enough
  -- nothing is left to be found below an absent link, so the match is above
  obtain ⟨id, seen⟩ : ∃ id, d.found = some id :=
    Option.ne_none_iff_exists'.mp fun none => shows.missed none rfl
  obtain ⟨g, member, rfl, equal⟩ := shows.found id seen
  cases bottom with
  | nil => cases member
  | cons f rest =>
      refine ⟨f, rest, g, d, rfl, member, equal, run, shows, seen, writes, fun leaf t' unlinked => ?_⟩
      simp [erase, searched, run, unlinked, Traced.pureEq]

theorem eraseShows (linked : Linked t s) (held : s.find? (policy key) ≠ none) {log : List Event} {bottom : Path K V}
    (passes : Passes (policy key) (s.descent (policy key) + 1) ⟨[], s⟩ log bottom) :
    ∃ f, ∃ rest : Path K V, ∃ g t', bottom = f :: rest ∧ g ∈ f :: rest ∧ policy key g.cell.key = .eq ∧
      erase policy t key = ⟨log, .ok (.ok f.cell.id, t')⟩ ∧
      Linked t' ((rest.fill f.far).give g.cell.id f.cell.entry).blacken ∧
      Storage.get? t'.store f.cell.id = some (.fresh g.cell.key g.cell.value) ∧ Rewrites s.ids t.store t'.store := by
  obtain ⟨f, rest, g, d, rfl, member, equal, -, shows, seen, writes, answers⟩ := eraseLoop linked held passes
  obtain ⟨t', unlinked, linked', fresh, writes'⟩ := unlinkOk shows member seen
  have same : (Path.fill (f :: rest) .leaf).ids = s.ids := Shape.idsOfCells passes.cellsRoot
  exact ⟨f, rest, g, t', rfl, member, equal, answers _ _ unlinked, linked', fresh, writes.trans (same ▸ writes')⟩

theorem erasePasses (linked : Linked t s) (held : s.find? (policy key) ≠ none) :
    ∃ log f, ∃ rest : Path K V, ∃ g t', Passes (policy key) (s.descent (policy key) + 1) ⟨[], s⟩ log (f :: rest) ∧ g ∈ f :: rest ∧
      policy key g.cell.key = .eq ∧ erase policy t key = ⟨log, .ok (.ok f.cell.id, t')⟩ ∧
      Linked t' ((rest.fill f.far).give g.cell.id f.cell.entry).blacken ∧
      Storage.get? t'.store f.cell.id = some (.fresh g.cell.key g.cell.value) ∧ Rewrites s.ids t.store t'.store := by
  obtain ⟨log, bottom, passes⟩ := Erasure.passes (policy key) [] s
  obtain ⟨f, rest, g, t', rfl, shown⟩ := eraseShows linked held passes
  exact ⟨log, f, rest, g, t', passes, shown⟩

end RedBlack.Tree
