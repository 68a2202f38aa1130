import ChainFeed.Proofs.Family.Blocks

/-!
# Linked computations

The operations of a repository are put together from a few kinds of steps: questions to the node,
readings of its answers, and looks at the clock. So what links the steps of two repositories links all
of their operations, whatever the repositories run in.
-/

namespace ChainFeed.Family

open Rpc (Request Response Transport)

variable {m m' : Type → Type} [Monad m] [Monad m']

/-- A way to compare computations in two monads as far as the second one gives a result. -/
structure Link (m m' : Type → Type) [Monad m] [Monad m'] where
  rel {α β : Type} : (α → β → Prop) → ExceptT RepositoryError m α → ExceptT RepositoryError m' β → Prop
  pure {α β : Type} {R : α → β → Prop} {a : α} {b : β} (h : R a b) : rel R (pure a) (pure b)
  throw {α β : Type} {R : α → β → Prop} (x : ExceptT RepositoryError m α) (e : RepositoryError) :
    rel R x (throw e)
  bind {α β α' β' : Type} {R : α → β → Prop} {S : α' → β' → Prop} {x : ExceptT RepositoryError m α}
    {y : ExceptT RepositoryError m' β} {f : α → ExceptT RepositoryError m α'}
    {g : β → ExceptT RepositoryError m' β'} (h : rel R x y) (next : ∀ a b, R a b → rel S (f a) (g b)) :
    rel S (x >>= f) (y >>= g)

namespace Link

structure Nodes (l : Link m m') (t : Transport m) (t' : Transport m') : Prop where
  send : ∀ r, l.rel Eq (carried (t.send r)) (carried (t'.send r))
  batch : ∀ rs, l.rel Eq (carried (t.batch rs)) (carried (t'.batch rs))

def Clocks (l : Link m m') [Clock m] [Clock m'] : Prop :=
  l.rel (fun _ _ => True) (liftM (Clock.unixTime : m Int64)) (liftM (Clock.unixTime : m' Int64))

variable {l : Link m m'} {t : Transport m} {t' : Transport m'} {α β γ : Type} {S : β → γ → Prop}

theorem next {x : ExceptT RepositoryError m α} {y : ExceptT RepositoryError m' α}
    {f : α → ExceptT RepositoryError m β} {g : α → ExceptT RepositoryError m' γ} (h : l.rel Eq x y)
    (next : ∀ a, l.rel S (f a) (g a)) : l.rel S (x >>= f) (y >>= g) := by
  refine l.bind h ?_
  rintro a _ rfl
  exact next a

theorem having (l : Link m m') (e : Except RepositoryError α) : l.rel Eq (having e) (having e) := by
  cases e with
  | error e => exact l.throw _ e
  | ok a => exact l.pure rfl

theorem ask (h : l.Nodes t t') (r : Request) : l.rel Eq (ask t r) (ask t' r) := by
  apply next (h.send r)
  intro response
  exact l.having _

theorem askAll (h : l.Nodes t t') (rs : List Request) : l.rel Eq (askAll t rs) (askAll t' rs) := by
  unfold Family.askAll
  split
  · exact l.pure rfl
  · exact h.batch rs

theorem fetch (h : l.Nodes t t') (d : BlockDialect α) (numbers : BlockSet) :
    l.rel Eq (d.fetch t numbers) (d.fetch t' numbers) := by
  apply next (askAll h _)
  intro responses
  exact l.having _

theorem lookup {κ : Type} (h : l.Nodes t t') (lookup : Lookup κ α) (keys : List κ) :
    l.rel Eq (lookup.fetch t keys) (lookup.fetch t' keys) := by
  unfold Lookup.fetch
  induction pieces batchSize keys with
  | nil => exact l.pure rfl
  | cons keys rest ih =>
    apply next (askAll h _)
    intro responses
    apply next (l.having _)
    intro found
    exact next ih fun others => l.pure rfl

def Registries (l : Link m m') (chains : Registry m) (chains' : Registry m') (chain : String) : Prop :=
  ∃ chainId t t', chains.get chain = .ok ⟨chainId, t⟩ ∧ chains'.get chain = .ok ⟨chainId, t'⟩ ∧ l.Nodes t t'

theorem Registries.serving {chains : Registry m} {chains' : Registry m'} {chain : String}
    (h : l.Registries chains chains' chain) {serve : ChainSettings m → ExceptT RepositoryError m β}
    {serve' : ChainSettings m' → ExceptT RepositoryError m' γ}
    (served : ∀ chainId t t', l.Nodes t t' → l.rel S (serve ⟨chainId, t⟩) (serve' ⟨chainId, t'⟩)) :
    l.rel S (Family.serving chains chain serve) (Family.serving chains' chain serve') := by
  obtain ⟨chainId, t, t', known, known', nodes⟩ := h
  simp only [Family.serving, known, known']
  exact served chainId t t' nodes

end Link

end ChainFeed.Family

namespace ChainFeed

open Family

variable {m m' : Type → Type} [Monad m] [Monad m'] {l : Link m m'} {chain : String}
  {chains : Registry m} {chains' : Registry m'}

/-- Blocks that differ in the times of their placeholders at most. -/
def SameBlocks (blocks blocks' : BlockMap) : Prop :=
  ChainFamily.timeless blocks = ChainFamily.timeless blocks'

theorem SameBlocks.of_arranged (f : ChainFamily) (now now' : Int64) (found : List (UInt64 × Option Block)) :
    SameBlocks (.ofBlocks (f.arranged now found)) (.ofBlocks (f.arranged now' found)) :=
  (ChainFamily.timeless_arranged f now found).trans (ChainFamily.timeless_arranged f now' found).symm

namespace Evm

theorem block_linked (h : l.Registries chains chains' chain) (tag : BlockTag) (full : Bool) :
    l.rel Eq (block chains chain tag full) (block chains' chain tag full) := by
  unfold block
  apply h.serving
  intro chainId t t' nodes
  apply Link.next (Link.ask nodes _)
  intro value
  split
  · exact l.throw _ _
  · exact l.having _

theorem height_linked (h : l.Registries chains chains' chain) (tag : BlockTag) :
    l.rel Eq (height chains chain tag) (height chains' chain tag) := by
  cases tag with
  | number n => exact l.throw _ _
  | latest | safe | finalized => exact Link.next (block_linked h _ false) fun b => l.pure rfl

theorem blocks_linked [Clock m] [Clock m'] (h : l.Registries chains chains' chain) (clocks : l.Clocks)
    (numbers : BlockSet) (full : Bool) :
    l.rel SameBlocks (blocks chains chain numbers full) (blocks chains' chain numbers full) := by
  unfold blocks
  apply h.serving
  intro chainId t t' nodes
  apply Link.next (Link.fetch nodes _ _)
  intro found
  apply l.bind clocks
  intro now now' _
  exact l.pure (SameBlocks.of_arranged .evm now now' found)

theorem logs_linked (h : l.Registries chains chains' chain) (filter : LogFilter) :
    l.rel Eq (logs chains chain filter) (logs chains' chain filter) := by
  unfold logs
  apply h.serving
  intro chainId t t' nodes
  split
  · exact l.pure rfl
  · apply Link.next (Link.ask nodes _)
    intro value
    apply Link.next (l.having _)
    intro raw
    exact l.having _

theorem receipts_linked (h : l.Registries chains chains' chain) (refs : TxRefSet) :
    l.rel Eq (receipts chains chain refs) (receipts chains' chain refs) := by
  unfold receipts
  apply h.serving
  intro chainId t t' nodes
  exact Link.next (Link.lookup nodes _ _) fun found => l.pure rfl

end Evm

namespace Solana

theorem height_linked (h : l.Registries chains chains' chain) (tag : BlockTag) :
    l.rel Eq (height chains chain tag) (height chains' chain tag) := by
  unfold height
  apply h.serving
  intro chainId t t' nodes
  cases tag with
  | number n => exact l.throw _ _
  | latest | safe | finalized =>
    apply Link.next (Link.ask nodes _)
    intro value
    split
    · exact l.pure rfl
    · exact l.throw _ _

theorem block_linked (h : l.Registries chains chains' chain) (tag : BlockTag) (full : Bool) :
    l.rel Eq (block chains chain tag full) (block chains' chain tag full) := by
  have hslot : l.rel Eq (slotOf chains chain tag) (slotOf chains' chain tag) := by
    cases tag with
    | number n => exact l.pure rfl
    | latest | safe | finalized =>
      unfold slotOf
      exact height_linked h _
  apply Link.next hslot
  intro slot
  apply h.serving
  intro chainId t t' nodes
  apply Link.next (Link.ask nodes _)
  intro value
  split
  · exact l.throw _ _
  · exact l.having _

theorem blocks_linked [Clock m] [Clock m'] (h : l.Registries chains chains' chain) (clocks : l.Clocks)
    (numbers : BlockSet) (full : Bool) :
    l.rel SameBlocks (blocks chains chain numbers full) (blocks chains' chain numbers full) := by
  unfold blocks
  apply h.serving
  intro chainId t t' nodes
  apply Link.next (Link.fetch nodes _ _)
  intro found
  apply l.bind clocks
  intro now now' _
  exact l.pure (SameBlocks.of_arranged .solana now now' found)

variable {t : Rpc.Transport m} {t' : Rpc.Transport m'}

theorem history_linked (nodes : l.Nodes t t') (paging : Paging) (address : String) (filter : LogFilter) :
    l.rel Eq (history t paging address filter) (history t' paging address filter) := by
  have hfrom : ∀ budget page before, l.rel Eq (historyFrom t paging.limit address filter budget page before)
      (historyFrom t' paging.limit address filter budget page before) := by
    intro budget
    induction budget with
    | zero => exact fun page before => l.throw _ _
    | succ budget ih =>
      intro page before
      apply Link.next (Link.ask nodes _)
      intro value
      apply Link.next (l.having _)
      intro entries
      dsimp only
      split
      · exact l.pure rfl
      · exact Link.next (ih _ _) fun older => l.pure rfl
  exact hfrom _ _ _

theorem logsAt_linked (nodes : l.Nodes t t') (chainId : UInt64) (paging : Paging) (filter : LogFilter)
    (addresses : List String) : l.rel Eq (logsAt ⟨chainId, t⟩ paging filter addresses)
      (logsAt ⟨chainId, t'⟩ paging filter addresses) := by
  induction addresses with
  | nil => exact l.pure rfl
  | cons address rest ih =>
    apply Link.next (history_linked nodes _ _ _)
    intro entries
    apply Link.next (Link.lookup nodes _ _)
    intro found
    apply Link.next (l.having _)
    intro logs
    exact Link.next ih fun others => l.pure rfl

theorem logs_linked (h : l.Registries chains chains' chain) (paging : Paging) (filter : LogFilter) :
    l.rel Eq (logs chains paging chain filter) (logs chains' paging chain filter) := by
  unfold logs
  apply h.serving
  intro chainId t t' nodes
  split
  · exact l.pure rfl
  · split
    · exact l.throw _ _
    · exact logsAt_linked nodes chainId _ _ _

theorem receipts_linked (h : l.Registries chains chains' chain) (refs : TxRefSet) :
    l.rel Eq (receipts chains chain refs) (receipts chains' chain refs) := by
  unfold receipts
  apply h.serving
  intro chainId t t' nodes
  exact Link.next (Link.lookup nodes _ _) fun found => l.having _

end Solana

namespace Near

theorem complete_linked {t : Rpc.Transport m} {t' : Rpc.Transport m'} (nodes : l.Nodes t t') (full : Bool)
    (blocks : List (Block × List String)) : l.rel Eq (complete t full blocks) (complete t' full blocks) := by
  unfold complete
  split
  · exact Link.next (Link.askAll nodes _) fun responses => l.having _
  · exact l.pure rfl

theorem block_linked (h : l.Registries chains chains' chain) (tag : BlockTag) (full : Bool) :
    l.rel Eq (block chains chain tag full) (block chains' chain tag full) := by
  unfold block
  apply h.serving
  intro chainId t t' nodes
  apply Link.next (Link.ask nodes _)
  intro value
  split
  · exact l.throw _ _
  · apply Link.next (l.having _)
    intro found
    exact Link.next (complete_linked nodes _ _) fun blocks => l.pure rfl

theorem height_linked (h : l.Registries chains chains' chain) (tag : BlockTag) :
    l.rel Eq (height chains chain tag) (height chains' chain tag) := by
  cases tag with
  | number n => exact l.throw _ _
  | latest | safe | finalized => exact Link.next (block_linked h _ false) fun b => l.pure rfl

theorem sameBlocks_missing {β : Type} (now now' : Int64) (served : List Block)
    (found : List (UInt64 × Option β)) :
    let missing (now : Int64) := found.filterMap fun p =>
      if p.2.isNone then some (Block.placeholder p.1 now) else none
    SameBlocks (.ofBlocks (served ++ missing now)) (.ofBlocks (served ++ missing now')) := by
  intro missing
  have hmissing : ∀ now, (missing now).map Block.timeless = missing 0 := by
    intro now
    rw [List.map_filterMap]
    congr 1
    funext p
    split <;> rfl
  rw [SameBlocks, ChainFamily.timeless_ofBlocks, ChainFamily.timeless_ofBlocks, List.map_append,
    List.map_append, hmissing, hmissing]

theorem blocks_linked [Clock m] [Clock m'] (h : l.Registries chains chains' chain) (clocks : l.Clocks)
    (numbers : BlockSet) (full : Bool) :
    l.rel SameBlocks (blocks chains chain numbers full) (blocks chains' chain numbers full) := by
  unfold blocks
  apply h.serving
  intro chainId t t' nodes
  apply Link.next (Link.fetch nodes _ _)
  intro found
  apply l.bind clocks
  intro now now' _
  apply Link.next (complete_linked nodes _ _)
  intro served
  exact l.pure (sameBlocks_missing now now' served found)

theorem receipts_linked (h : l.Registries chains chains' chain) (refs : TxRefSet) :
    l.rel Eq (receipts chains chain refs) (receipts chains' chain refs) := by
  unfold receipts
  apply h.serving
  intro chainId t t' nodes
  split
  · exact l.throw _ _
  · exact Link.next (Link.lookup nodes _ _) fun found => l.pure rfl

theorem addressed_sameBlocks (filter : LogFilter) {blocks blocks' : BlockMap}
    (same : SameBlocks blocks blocks') : addressed filter blocks.values = addressed filter blocks'.values := by
  have htransactions : ∀ b : Block, b.timeless.transactions = b.transactions := by
    intro b
    unfold Block.timeless
    split <;> rfl
  have haddressed : ∀ found : BlockMap, addressed filter found.values =
      ((ChainFamily.timeless found).flatMap fun e => e.2.transactions.getD []).filter
        fun tx => tx.receiver.any filter.matchesAddress := by
    intro found
    simp only [addressed, Table.values, ChainFamily.timeless, List.flatMap_map, htransactions]
  rw [haddressed, haddressed, show ChainFamily.timeless blocks = ChainFamily.timeless blocks' from same]

/-- A scan depends on its blocks only in what does not change with the clock. -/
theorem scan_linked {fetch : BlockSet → ExceptT RepositoryError m BlockMap}
    {fetch' : BlockSet → ExceptT RepositoryError m' BlockMap}
    (fetched : ∀ numbers, l.rel SameBlocks (fetch numbers) (fetch' numbers)) (filter : LogFilter)
    (size last first : Nat) : l.rel Eq (scan fetch filter size last first)
      (scan fetch' filter size last first) := by
  induction hleft : last + 1 - first using Nat.strongRecOn generalizing first with
  | _ left ih =>
    rw [scan.eq_def fetch, scan.eq_def fetch']
    apply l.bind (fetched _)
    intro blocks blocks' same
    rw [addressed_sameBlocks filter same]
    dsimp only
    split
    · exact l.pure rfl
    · next hmore => exact Link.next (ih _ (by omega) _ rfl) fun others => l.pure rfl

theorem logs_linked [Clock m] [Clock m'] (h : l.Registries chains chains' chain) (clocks : l.Clocks)
    (options : Scan) (filter : LogFilter) :
    l.rel Eq (logs chains options chain filter) (logs chains' options chain filter) := by
  unfold logs
  apply h.serving
  intro chainId t t' nodes
  split
  · exact l.pure rfl
  · split
    · exact l.throw _ _
    · apply Link.next (scan_linked (fun numbers => blocks_linked h clocks numbers true) _ _ _ _)
      intro txs
      exact Link.next (receipts_linked h _) fun found => l.pure rfl

end Near

structure Family.Link.Repositories (l : Link m m') (repo : Repository m) (repo' : Repository m')
    (chain : String) : Prop where
  height : ∀ tag, l.rel Eq (.mk (repo.height chain tag)) (.mk (repo'.height chain tag))
  blocks : ∀ numbers full,
    l.rel SameBlocks (.mk (repo.blocks chain numbers full)) (.mk (repo'.blocks chain numbers full))
  block : ∀ tag full, l.rel Eq (.mk (repo.block chain tag full)) (.mk (repo'.block chain tag full))
  logs : ∀ filter, l.rel Eq (.mk (repo.logs chain filter)) (.mk (repo'.logs chain filter))
  receipts : ∀ refs, l.rel Eq (.mk (repo.receipts chain refs)) (.mk (repo'.receipts chain refs))

/-- Repositories of one family over linked nodes are linked. -/
theorem ChainFamily.repositories_linked [Clock m] [Clock m'] (f : ChainFamily)
    (h : l.Registries chains chains' chain) (clocks : l.Clocks) :
    l.Repositories (f.repository chains) (f.repository chains') chain := by
  cases f with
  | evm => exact ⟨Evm.height_linked h, Evm.blocks_linked h clocks, Evm.block_linked h, Evm.logs_linked h,
      Evm.receipts_linked h⟩
  | solana => exact ⟨Solana.height_linked h, Solana.blocks_linked h clocks, Solana.block_linked h,
      Solana.logs_linked h _, Solana.receipts_linked h⟩
  | near => exact ⟨Near.height_linked h, Near.blocks_linked h clocks, Near.block_linked h,
      Near.logs_linked h clocks _, Near.receipts_linked h⟩

end ChainFeed
