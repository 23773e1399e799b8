import BlockFS.FileSystem
import BlockFS.Proofs.Codec.RoundTrip
import BlockFS.Proofs.Data.Slices
import BlockFS.Proofs.Data.Tiling
import BlockFS.Proofs.Invariant.Allocation
import BlockFS.Proofs.Refinement.Directories
import BlockFS.Proofs.Refinement.Endurance
import BlockFS.Proofs.Refinement.Independence
import BlockFS.Proofs.Refinement.Integrity
import BlockFS.Proofs.Refinement.Refusal
import BlockFS.Proofs.Refinement.Remount
import BlockFS.Proofs.Refinement.Removal
import BlockFS.Proofs.Refinement.Renaming
import BlockFS.Proofs.Refinement.Robustness
import BlockFS.Proofs.Refinement.Space
import BlockFS.Proofs.Refinement.Splitting
import BlockFS.Proofs.Refinement.StrayPointers
import BlockFS.Proofs.Refinement.Truncation
import BlockFS.Proofs.Space.Exactness
import BlockFS.Proofs.Text.Naming
import BlockFS.Proofs.Text.Parsing
