import StackAsm.Listing
import StackAsm.Session
import StackAsm.Host.Workstation
import StackAsm.Main
import StackAsm.Proofs.Verdict
import StackAsm.Proofs.Disassembly
import StackAsm.Proofs.Spacing
import StackAsm.Proofs.Acceptance
import StackAsm.Proofs.Renaming
import StackAsm.Proofs.Placement
import StackAsm.Proofs.Extension
import StackAsm.Proofs.Decoding
import StackAsm.Proofs.Stepwise
import StackAsm.Proofs.ImageWriting
import StackAsm.Proofs.ExitCode
import StackAsm.Proofs.Safekeeping
import StackAsm.Proofs.Reporting
import StackAsm.Proofs.Resolving
import StackAsm.Proofs.Referents
import StackAsm.Proofs.AbsolutePaths
import StackAsm.Proofs.Launching
import StackAsm.Proofs.Dispatch
import StackAsm.Proofs.Emission
import StackAsm.Proofs.Tiling
import StackAsm.Proofs.Transcript
import StackAsm.Proofs.Integers
import StackAsm.Proofs.Unshadowed
import StackAsm.Proofs.Listings
import StackAsm.Proofs.Diagnostics
import StackAsm.Proofs.FloatLiterals
import StackAsm.Proofs.Tabulation
