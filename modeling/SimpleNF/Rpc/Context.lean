import Mathlib.Tactic.Linarith
import Mathlib.Tactic.Ring

/-! Numbering of the circular buffers (rpcNUMAContext::getCBufIdx). The region of
a server thread has numClients * threadsPerClient buffers, but inside a region
the client is scaled by numClients, not by threadsPerClient. -/
namespace SimpleNF

structure RpcNUMAContext where
  totalNodeCount : UInt32
  threadsPerClient : UInt32
  deriving DecidableEq, Repr

def RpcNUMAContext.getNumClients (ctx : RpcNUMAContext) : UInt32 := ctx.totalNodeCount - 1

def RpcNUMAContext.getCBufIdx (ctx : RpcNUMAContext) (clNid clTid srThread : UInt32) : UInt64 :=
  let zeroShiftedClNid := clNid - 1
  let bufsPerServThread := (ctx.getNumClients * ctx.threadsPerClient).toUInt64
  let servRegionIdx := srThread.toUInt64 * bufsPerServThread
  let clientBuffer := (zeroShiftedClNid * ctx.getNumClients + clTid).toUInt64
  servRegionIdx + clientBuffer

/-- A triple of client node, client thread and server thread that exists. -/
def RpcNUMAContext.Has (ctx : RpcNUMAContext) (servers : Nat)
    (clNid clTid srThread : UInt32) : Prop :=
  1 ≤ clNid.toNat ∧ clNid.toNat ≤ ctx.getNumClients.toNat ∧
    clTid.toNat < ctx.threadsPerClient.toNat ∧ srThread.toNat < servers

theorem client_index_bound {C T m t : Nat} (hm : 1 ≤ m) (hC : m ≤ C) (ht : t < T) :
    (m - 1) * C + t < C * C * T := by
  obtain ⟨u, rfl⟩ : ∃ u, T = u + 1 := ⟨T - 1, by omega⟩
  have square : 1 ≤ C * C := Nat.mul_pos (by omega) (by omega)
  have rows : (m - 1) * C + C ≤ C * C := by
    calc (m - 1) * C + C = (m - 1 + 1) * C := by ring
      _ ≤ C * C := Nat.mul_le_mul_right C (by omega)
  have threads : u ≤ C * C * u := Nat.le_mul_of_pos_left u square
  rw [Nat.mul_add, Nat.mul_one]
  omega

theorem product_bounds {C T S N : Nat} (hC : 1 ≤ C) (hS : 1 ≤ S) (small : C * C * T * S < N) :
    C * C * T < N ∧ C * T < N ∧ S * (C * T) < N := by
  have square : C * C * T ≤ C * C * T * S := Nat.le_mul_of_pos_right _ hS
  have rows : S * (C * T) ≤ C * C * T * S := by
    calc S * (C * T) = 1 * (C * T * S) := by ring
      _ ≤ C * (C * T * S) := Nat.mul_le_mul_right _ hC
      _ = C * C * T * S := by ring
  have region : C * T ≤ S * (C * T) := Nat.le_mul_of_pos_left _ hS
  omega

theorem getCBufIdx_toNat {ctx : RpcNUMAContext} {S : Nat} {clNid clTid srThread : UInt32}
    (clients : 1 ≤ ctx.getNumClients.toNat)
    (small : ctx.getNumClients.toNat * ctx.getNumClients.toNat * ctx.threadsPerClient.toNat * S
      < 2 ^ 32) (has : ctx.Has S clNid clTid srThread) :
    (ctx.getCBufIdx clNid clTid srThread).toNat =
      srThread.toNat * (ctx.getNumClients.toNat * ctx.threadsPerClient.toNat) +
        ((clNid.toNat - 1) * ctx.getNumClients.toNat + clTid.toNat) := by
  obtain ⟨first, last, thread, server⟩ := has
  have client := client_index_bound first last thread
  have bounds := product_bounds clients (by omega) small
  have shift : (clNid - 1).toNat = clNid.toNat - 1 :=
    UInt32.toNat_sub_of_le _ _ (by rw [UInt32.le_iff_toNat_le]; exact first)
  have region : srThread.toNat * (ctx.getNumClients.toNat * ctx.threadsPerClient.toNat) ≤
      S * (ctx.getNumClients.toNat * ctx.threadsPerClient.toNat) :=
    Nat.mul_le_mul_right _ (by omega)
  simp only [RpcNUMAContext.getCBufIdx, UInt64.toNat_add, UInt64.toNat_mul, UInt32.toNat_toUInt64,
    UInt32.toNat_add, UInt32.toNat_mul, shift]
  rw [Nat.mod_eq_of_lt (by omega : (clNid.toNat - 1) * ctx.getNumClients.toNat < 2 ^ 32),
    Nat.mod_eq_of_lt (by omega : ctx.getNumClients.toNat * ctx.threadsPerClient.toNat < 2 ^ 32),
    Nat.mod_eq_of_lt (by omega : (clNid.toNat - 1) * ctx.getNumClients.toNat +
      clTid.toNat < 2 ^ 32)]
  rw [Nat.mod_eq_of_lt (by omega), Nat.mod_eq_of_lt (by omega)]

/-- Every triple owns its own buffer, inside the documented region of its server
thread and below the number of buffers that are set up. -/
def RpcNUMAContext.OwnBuffers (ctx : RpcNUMAContext) (servers : Nat) : Prop :=
  (∀ m t s m' t' s', ctx.Has servers m t s → ctx.Has servers m' t' s' →
    ctx.getCBufIdx m t s = ctx.getCBufIdx m' t' s' → m = m' ∧ t = t' ∧ s = s') ∧
  (∀ m t s, ctx.Has servers m t s →
    let region := ctx.getNumClients.toNat * ctx.threadsPerClient.toNat
    s.toNat * region ≤ (ctx.getCBufIdx m t s).toNat ∧
    (ctx.getCBufIdx m t s).toNat ≤ (s.toNat + 1) * region - 1 ∧
    (ctx.getCBufIdx m t s).toNat < region * servers)

theorem radix_unique {R a b a' b' : Nat} (hb : b < R) (hb' : b' < R)
    (same : a * R + b = a' * R + b') : a = a' ∧ b = b' := by
  have pos : 0 < R := by omega
  have quotient := congrArg (· / R) same
  have remainder := congrArg (· % R) same
  simp only [Nat.mul_comm _ R, Nat.mul_add_div pos, Nat.div_eq_of_lt hb, Nat.div_eq_of_lt hb',
    Nat.mul_add_mod, Nat.mod_eq_of_lt hb, Nat.mod_eq_of_lt hb'] at quotient remainder
  exact ⟨by omega, remainder⟩

theorem radix_bound {R Q a b : Nat} (ha : a < Q) (hb : b < R) : a * R + b < Q * R := by
  calc a * R + b < (a + 1) * R := by rw [Nat.succ_mul]; omega
    _ ≤ Q * R := Nat.mul_le_mul_right R ha

theorem owned_of_radix {ctx : RpcNUMAContext} {S : Nat}
    (clients : 1 ≤ ctx.getNumClients.toNat)
    (small : ctx.getNumClients.toNat * ctx.getNumClients.toNat * ctx.threadsPerClient.toNat * S
      < 2 ^ 32)
    (radix : ∀ m, 1 ≤ m → m ≤ ctx.getNumClients.toNat →
      (m - 1) * ctx.getNumClients.toNat = (m - 1) * ctx.threadsPerClient.toNat) :
    ctx.OwnBuffers S := by
  have value : ∀ m t s, ctx.Has S m t s → (ctx.getCBufIdx m t s).toNat =
      s.toNat * (ctx.getNumClients.toNat * ctx.threadsPerClient.toNat) +
        ((m.toNat - 1) * ctx.threadsPerClient.toNat + t.toNat) := by
    intro m t s has
    rw [getCBufIdx_toNat clients small has, radix _ has.1 has.2.1]
  have within : ∀ m t s, ctx.Has S m t s → (m.toNat - 1) * ctx.threadsPerClient.toNat + t.toNat <
      ctx.getNumClients.toNat * ctx.threadsPerClient.toNat := by
    intro m t s has
    have h1 := has.1
    have h2 := has.2.1
    exact radix_bound (by omega) has.2.2.1
  constructor
  · intro m t s m' t' s' has has' same
    have eq := congrArg UInt64.toNat same
    rw [value m t s has, value m' t' s' has'] at eq
    obtain ⟨server, client⟩ := radix_unique (within m t s has) (within m' t' s' has') eq
    obtain ⟨node, thread⟩ := radix_unique has.2.2.1 has'.2.2.1 client
    have h1 := has.1
    have h2 := has'.1
    exact ⟨UInt32.toNat_inj.mp (by omega), UInt32.toNat_inj.mp thread, UInt32.toNat_inj.mp server⟩
  · intro m t s has
    have inside := within m t s has
    have below := radix_bound has.2.2.2 inside
    simp only [value m t s has, Nat.succ_mul, Nat.mul_comm _ S]
    omega

/-- Each triple owns its own buffer exactly when there is at most one client, or
as many threads in each client as clients, or no server thread at all. -/
theorem own_buffers_iff (ctx : RpcNUMAContext) (servers : Nat)
    (clients : 1 ≤ ctx.getNumClients.toNat) (threads : 1 ≤ ctx.threadsPerClient.toNat)
    (small : ctx.getNumClients.toNat * ctx.getNumClients.toNat * ctx.threadsPerClient.toNat *
      servers < 2 ^ 32) :
    ctx.OwnBuffers servers ↔
      servers = 0 ∨ ctx.getNumClients.toNat = 1 ∨
        ctx.getNumClients.toNat = ctx.threadsPerClient.toNat := by
  constructor
  · intro owned
    by_contra none
    simp only [not_or] at none
    obtain ⟨some, several, differ⟩ := none
    rcases Nat.lt_or_ge ctx.getNumClients.toNat ctx.threadsPerClient.toNat with fewer | more
    · -- client 1, thread numClients and client 2, thread 0 share a buffer
      have one : ctx.Has servers 1 ctx.getNumClients 0 :=
        ⟨by decide, clients, fewer, by simp; omega⟩
      have two : ctx.Has servers 2 0 0 :=
        ⟨by decide, by simp; omega, by simp; omega, by simp; omega⟩
      have same : ctx.getCBufIdx 1 ctx.getNumClients 0 = ctx.getCBufIdx 2 0 0 := by
        apply UInt64.toNat_inj.mp
        rw [getCBufIdx_toNat clients small one, getCBufIdx_toNat clients small two]
        simp
      exact absurd (owned.1 _ _ _ _ _ _ one two same).1 (by decide)
    · -- the last client's first thread lies past the region of server 0
      have last : ctx.Has servers ctx.getNumClients 0 0 :=
        ⟨clients, Nat.le_refl _, by simp; omega, by simp; omega⟩
      have region := (owned.2 _ _ _ last).2.1
      rw [getCBufIdx_toNat clients small last] at region
      have rows : ctx.getNumClients.toNat * ctx.threadsPerClient.toNat ≤
          (ctx.getNumClients.toNat - 1) * ctx.getNumClients.toNat := by
        rw [Nat.mul_comm]
        exact Nat.mul_le_mul_right _ (by omega)
      have some : 0 < ctx.getNumClients.toNat * ctx.threadsPerClient.toNat :=
        Nat.mul_pos clients threads
      simp at region
      omega
  · rintro (none | one | same)
    · constructor
      · intro m t s m' t' s' has
        exact absurd has.2.2.2 (by omega)
      · intro m t s has
        exact absurd has.2.2.2 (by omega)
    · apply owned_of_radix clients small
      intro m first last
      have only : m - 1 = 0 := by omega
      simp [only]
    · exact owned_of_radix clients small (fun m _ _ => by rw [same])

theorem own_buffers_two_by_two : (RpcNUMAContext.mk 3 2).OwnBuffers 2 :=
  (own_buffers_iff ⟨3, 2⟩ 2 (by decide) (by decide) (by decide)).mpr (Or.inr (Or.inr (by decide)))

/-- Two clients with one client thread each: client 2 is numbered past its region. -/
theorem buffer_outside_region :
    ¬ (RpcNUMAContext.mk 3 1).OwnBuffers 1 := by
  intro owned
  have has : (RpcNUMAContext.mk 3 1).Has 1 2 0 0 := ⟨by decide, by decide, by decide, by decide⟩
  have region := (owned.2 2 0 0 has).2.2
  revert region
  decide

end SimpleNF
