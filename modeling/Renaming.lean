import Renaming.Mappings.Union
import Renaming.Pass
import Renaming.Proofs.Agreement
import Renaming.Proofs.Reachability
import Renaming.Proofs.ClassNames
import Renaming.Proofs.DescriptorGrammar
import Renaming.Proofs.DescriptorRenaming
import Renaming.Proofs.DescribedTypes
import Renaming.Proofs.Entries
import Renaming.Proofs.ReferenceTypes
import Renaming.Proofs.References
import Renaming.Proofs.MalformedSymbols
import Renaming.Proofs.CanonicalMappings
import Renaming.Proofs.Translation
import Renaming.Proofs.Mediation
import Renaming.Proofs.Conversion
import Renaming.Proofs.Reversal
import Renaming.Proofs.TwoRoutes
import Renaming.Proofs.WayBack
import Renaming.Proofs.RestoredClasses
import Renaming.Proofs.UnchangedClasses
import Renaming.Proofs.SignatureGrammar
import Renaming.Proofs.SignatureLanguage
import Renaming.Proofs.KeptNames
import Renaming.Proofs.KeepingValidity
import Renaming.Proofs.Requirements
import Renaming.Proofs.ValidMappings
import Renaming.Proofs.Overriding
import Renaming.Proofs.Runs
import Renaming.Proofs.OverridableMethods
import Renaming.Proofs.ClassOrder
import Renaming.Proofs.Skeletons
import Renaming.Proofs.Options
import Renaming.Proofs.Constructors
import Renaming.Proofs.Lockstep
import Renaming.Proofs.OnePass
import Renaming.Proofs.SimpleNames
import Renaming.Proofs.SignaturePieces
import Renaming.Proofs.FaithfulRenaming
import Renaming.Proofs.CopiedSignatures
import Renaming.Proofs.CollidingTargets
import Renaming.Proofs.Joining
import Renaming.Proofs.Cleaning
import Renaming.Proofs.HiddenMembers
import Renaming.Proofs.ConvertedExtras
import Renaming.Proofs.ThrownClasses
import Renaming.Proofs.DegradedBridges
import Renaming.Proofs.SignatureProgress
import Renaming.Proofs.ParameterNames
