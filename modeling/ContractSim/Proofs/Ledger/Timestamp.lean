import ContractSim.Proofs.Ledger.Activation
import ContractSim.Proofs.Ledger.Record
import ContractSim.Proofs.Pointwise

namespace ContractSim

-- The number that a word of two halves stands for.
theorem Word.toNat_halves (upper lower : Word) :
    ((upper <<< 32) ||| (lower &&& 0xffffffff)).toNat =
      upper.toNat % 2 ^ 32 * 2 ^ 32 + lower.toNat % 2 ^ 32 := by
  have hupper : (upper <<< 32).toNat = (upper.toNat % 2 ^ 32) <<< 32 := by
    rw [UInt64.toNat_shiftLeft, Nat.shiftLeft_eq, Nat.shiftLeft_eq]
    have hmodulus : 2 ^ 64 = 2 ^ 32 * 2 ^ 32 := by decide
    rw [hmodulus]
    exact Nat.mul_mod_mul_right _ _ _
  have hlower : (lower &&& 0xffffffff).toNat = lower.toNat % 2 ^ 32 := by
    rw [UInt64.toNat_and]
    exact Nat.and_two_pow_sub_one_eq_mod lower.toNat 32
  have hlt : lower.toNat % 2 ^ 32 < 2 ^ 32 := Nat.mod_lt _ (Nat.two_pow_pos 32)
  rw [UInt64.toNat_or, hupper, hlower, ← Nat.shiftLeft_add_eq_or_of_lt hlt, Nat.shiftLeft_eq]

namespace Transaction

theorem Ages.timestamp_eq {before after : Transaction} (hages : Ages before after) :
    after.timestamp = before.timestamp :=
  hages.view_eq Transaction.timestamp fun _ => rfl

-- The transactions of a block, each with its height and its place. Both are cut to 32 bits.
def StampedAt (height : Word) (block : List Transaction) : Prop :=
  ∀ place tx, block[place]? = some tx → tx.blockheight = height ∧
    tx.timestamp.toNat = height.toNat % 2 ^ 32 * 2 ^ 32 + (place + 1) % 2 ^ 32

theorem StampedAt.ages {height : Word} {block later : List Transaction}
    (hstamped : StampedAt height block) (hages : List.Forall₂ Ages block later) :
    StampedAt height later := by
  intro place tx htx
  obtain ⟨young, hyoung, (hsame : Ages young tx)⟩ := exists_getElem?_of_forall₂ hages.flip htx
  rw [hsame.blockheight_eq, hsame.timestamp_eq]
  exact hstamped place young hyoung

-- The upper half of a timestamp is the lower half of the height.
def Dated (tx : Transaction) : Prop :=
  tx.timestamp.toNat / 2 ^ 32 = tx.blockheight.toNat % 2 ^ 32

theorem StampedAt.dated {height : Word} {block : List Transaction}
    (hstamped : StampedAt height block) {tx : Transaction} (hmem : tx ∈ block) : tx.Dated := by
  obtain ⟨place, hplace⟩ := List.getElem?_of_mem hmem
  obtain ⟨hheight, htimestamp⟩ := hstamped place tx hplace
  rw [Dated, hheight, htimestamp]
  omega

-- Timestamps tell the order of two transactions whose heights have the same upper half.
def Precedes (earlier later : Transaction) : Prop :=
  earlier.blockheight.toNat / 2 ^ 32 = later.blockheight.toNat / 2 ^ 32 →
    earlier.timestamp < later.timestamp

theorem precedes_of_blockheight_lt {earlier later : Transaction} (hearlier : earlier.Dated)
    (hlater : later.Dated) (hlt : earlier.blockheight < later.blockheight) :
    earlier.Precedes later := by
  intro hsame
  unfold Dated at hearlier hlater
  rw [UInt64.lt_iff_toNat_lt] at hlt ⊢
  omega

-- Within a block the places tell the order, as long as they fit into their half.
theorem StampedAt.pairwise {height : Word} {block : List Transaction}
    (hstamped : StampedAt height block) (hfits : block.length < 2 ^ 32) :
    block.Pairwise Precedes := by
  rw [List.pairwise_iff_getElem]
  intro first second hfirst hsecond hlt _
  have hearlier := (hstamped first _ (List.getElem?_eq_getElem hfirst)).2
  have hlater := (hstamped second _ (List.getElem?_eq_getElem hsecond)).2
  rw [UInt64.lt_iff_toNat_lt, hearlier, hlater]
  omega

end Transaction

namespace Ledger

open Transaction

theorem toNat_timestamp_entry (ledger : Ledger) (place : Nat) (tx : Transaction) (id : Word) :
    (ledger.entry place tx id).timestamp.toNat =
      ledger.height.toNat % 2 ^ 32 * 2 ^ 32 + (ledger.sequence.toNat + place) % 2 ^ 32 := by
  rw [entry, Word.toNat_halves, UInt64.toNat_add, UInt64.toNat_ofNat']
  omega

-- A batch that is recorded first in a block.
theorem Recorded.exists_stampedAt {before after : Ledger} {transactions : List Transaction}
    {ids : List Word} (hrecorded : Recorded before transactions ids after)
    (hsequence : before.sequence = 1) :
    ∃ block, after.transactions = before.transactions ++ block ∧
      StampedAt before.height block := by
  refine ⟨_, hrecorded.transactions, ?_⟩
  intro place tx htx
  rw [List.getElem?_mapIdx, Option.map_eq_some_iff] at htx
  obtain ⟨pair, -, rfl⟩ := htx
  refine ⟨rfl, ?_⟩
  rw [toNat_timestamp_entry, hsequence, Nat.add_comm place]
  rfl

-- A ledger between two blocks. Its transactions are of heights below its own, and the next
-- transaction is the first one of its block.
structure Timely (ledger : Ledger) : Prop where
  sequence : ledger.sequence = 1
  past : ∀ tx ∈ ledger.transactions, tx.blockheight < ledger.height
  dated : ∀ tx ∈ ledger.transactions, tx.Dated
  order : ledger.transactions.Pairwise Precedes

theorem timely_start (height seed : Word) : Timely (Ledger.start height seed) :=
  ⟨rfl, List.forall_mem_nil _, List.forall_mem_nil _, List.Pairwise.nil⟩

-- What can be told of a ledger once a block has come on top of it.
theorem Timely.forge {ledger next : Ledger} {kept block : List Transaction}
    (htimely : Timely ledger) (hheight : next.height = ledger.height + 1)
    (hclimbs : ledger.height ≠ Word.top) (hsequence : next.sequence = 1)
    (hlist : next.transactions = kept ++ block)
    (hkept : List.Forall₂ Ages ledger.transactions kept)
    (hstamped : StampedAt ledger.height block) (hfits : block.length < 2 ^ 32) : Timely next := by
  have hhigher : ledger.height < next.height := by
    have hlt := Word.toNat_lt_of_ne_top hclimbs
    rw [hheight, UInt64.lt_iff_toNat_lt, Word.toNat_add_of_lt]
    · exact Nat.lt_succ_self _
    · exact Nat.add_lt_of_lt_sub hlt
  have hold : ∀ tx ∈ kept, tx.blockheight < ledger.height ∧ tx.Dated := by
    have hall : ∀ tx ∈ ledger.transactions, tx.blockheight < ledger.height ∧ tx.Dated :=
      fun tx hmem => ⟨htimely.past tx hmem, htimely.dated tx hmem⟩
    refine forall_mem_of_forall₂ hkept ?_ hall
    intro before after hages hbefore
    rw [Dated, hages.blockheight_eq, hages.timestamp_eq]
    exact hbefore
  have hnew : ∀ tx ∈ block, tx.blockheight = ledger.height := by
    intro tx hmem
    obtain ⟨place, hplace⟩ := List.getElem?_of_mem hmem
    exact (hstamped place tx hplace).1
  refine ⟨hsequence, ?_, ?_, ?_⟩
  · rw [hlist, List.forall_mem_append]
    refine ⟨fun tx hmem => UInt64.lt_trans (hold tx hmem).1 hhigher, fun tx hmem => ?_⟩
    rw [hnew tx hmem]
    exact hhigher
  · rw [hlist, List.forall_mem_append]
    exact ⟨fun tx hmem => (hold tx hmem).2, fun tx hmem => hstamped.dated hmem⟩
  · rw [hlist, List.pairwise_append]
    refine ⟨?_, hstamped.pairwise hfits, ?_⟩
    · refine pairwise_of_forall₂ hkept ?_ htimely.order
      intro first second later last hfirst hsecond hprecedes
      rw [Precedes, hfirst.blockheight_eq, hfirst.timestamp_eq, hsecond.blockheight_eq,
        hsecond.timestamp_eq]
      exact hprecedes
    · intro earlier hearlier later hlater
      refine precedes_of_blockheight_lt (hold earlier hearlier).2 (hstamped.dated hlater) ?_
      rw [hnew later hlater]
      exact (hold earlier hearlier).1

end Ledger

end ContractSim
