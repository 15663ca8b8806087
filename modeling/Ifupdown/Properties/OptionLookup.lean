import Ifupdown.Model.InterfaceFile

/-! Which options and keywords their tables give back. -/
namespace Ifupdown

def linearScan (table : List (Str × α)) (token : Str) : Option (Str × α) := table.find? fun entry => strcmp token entry.1 == .eq

/-- The options that stand out of order where halving does not come by. -/
def misplaced : List Str := [str "rx-offload", str "vxlan-remoteip"]

theorem linearScan_absent {table : List (Str × α)} {token : Str} (absent : ∀ entry ∈ table, strcmp token entry.1 ≠ .eq) :
    linearScan table token = none := by
  unfold linearScan
  rw [List.find?_eq_none]
  intro entry member same
  exact absent entry member (eq_of_beq same)

theorem keywords_scan (token : Str) : bsearch (fun entry => strcmp token entry.1) keywords = linearScan keywords token := by
  have sorted : keywords.Pairwise fun a b => strcmp a.1 b.1 = .lt := by decide +kernel
  exact bsearch_scan (sorted.imp fun next first => strcmp_trans first next)

theorem tokens_misplaced : ∀ entry ∈ tokens, bsearch (fun other => strcmp entry.1 other.1) tokens = linearScan tokens entry.1 ↔
    entry.1 ∉ misplaced := by decide +kernel

theorem tokens_scan (token : Str) :
    bsearch (fun entry => strcmp token entry.1) tokens = linearScan tokens token ↔ token ∉ misplaced := by
  by_cases listed : ∃ entry ∈ tokens, entry.1 = token
  · obtain ⟨entry, member, rfl⟩ := listed
    exact tokens_misplaced entry member
  · have absent : ∀ entry ∈ tokens, strcmp token entry.1 ≠ .eq :=
      fun entry member same => listed ⟨entry, member, (strcmp_eq.mp same).symm⟩
    have known : ∀ name ∈ misplaced, ∃ entry ∈ tokens, entry.1 = name := by decide +kernel
    rw [bsearch_absent absent, linearScan_absent absent]
    exact iff_of_true rfl fun member => listed (known token member)

/-- Both searches find what a scan finds just if the token is not a misplaced option. -/
theorem lookup_complete (token : Str) :
    bsearch (fun entry => strcmp token entry.1) tokens = linearScan tokens token ∧
        bsearch (fun entry => strcmp token entry.1) keywords = linearScan keywords token ↔
      token ∉ misplaced := by
  rw [tokens_scan]
  exact and_iff_left (keywords_scan token)

theorem lookup_complete_remoteip :
    bsearch (fun entry => strcmp (str "vxlan-remoteip") entry.1) tokens = none ∧
      linearScan tokens (str "vxlan-remoteip") = some (str "vxlan-remoteip", str "vxlan-peer-ips") := by decide +kernel

end Ifupdown
