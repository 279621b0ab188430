import UnitOfWork.Fixture.Journal
import UnitOfWork.Fixture.Model
import UnitOfWork.Fixture.Script
import UnitOfWork.Fixture.Session
import UnitOfWork.Session.Changes
import UnitOfWork.Session.Flush
import UnitOfWork.Proofs.AnsweredOnce
import UnitOfWork.Proofs.Asking
import UnitOfWork.Proofs.CachedAssociations
import UnitOfWork.Proofs.CanonicalDocuments
import UnitOfWork.Proofs.CleanLoads
import UnitOfWork.Proofs.DanglingReferences
import UnitOfWork.Proofs.DeletedRows
import UnitOfWork.Proofs.EntryTurns
import UnitOfWork.Proofs.ExactNumbers
import UnitOfWork.Proofs.Execution
import UnitOfWork.Proofs.FailedLoads
import UnitOfWork.Proofs.FilledInstances
import UnitOfWork.Proofs.FittingRows
import UnitOfWork.Proofs.FlushConservation
import UnitOfWork.Proofs.FlushFailure
import UnitOfWork.Proofs.FlushFaults
import UnitOfWork.Proofs.FlushOrder
import UnitOfWork.Proofs.FlushSteps
import UnitOfWork.Proofs.ForeignKeys
import UnitOfWork.Proofs.HashAgreement
import UnitOfWork.Proofs.History
import UnitOfWork.Proofs.HydratedColumns
import UnitOfWork.Proofs.IdentifiedInstances
import UnitOfWork.Proofs.IdentityMap
import UnitOfWork.Proofs.ImmutableEntities
import UnitOfWork.Proofs.IndexedBatches
import UnitOfWork.Proofs.Initialization
import UnitOfWork.Proofs.InsertDescriptors
import UnitOfWork.Proofs.InsertOrder
import UnitOfWork.Proofs.InsertOrigin
import UnitOfWork.Proofs.KeyResolution
import UnitOfWork.Proofs.KeyWidths
import UnitOfWork.Proofs.Ledger
import UnitOfWork.Proofs.Lifecycle
import UnitOfWork.Proofs.LoadEvents
import UnitOfWork.Proofs.LoadInvariant
import UnitOfWork.Proofs.LoadNotices
import UnitOfWork.Proofs.LoadResults
import UnitOfWork.Proofs.LoadRun
import UnitOfWork.Proofs.LoadedReferences
import UnitOfWork.Proofs.Lockstep
import UnitOfWork.Proofs.MirroredLoads
import UnitOfWork.Proofs.NaturalIdLookups
import UnitOfWork.Proofs.NewFamily
import UnitOfWork.Proofs.NewestVersions
import UnitOfWork.Proofs.NullKeys
import UnitOfWork.Proofs.NulledAttributes
import UnitOfWork.Proofs.NulledPlaces
import UnitOfWork.Proofs.OpenQuestions
import UnitOfWork.Proofs.ParkedDependencies
import UnitOfWork.Proofs.ParkedOrigin
import UnitOfWork.Proofs.PendingInserts
import UnitOfWork.Proofs.PrefixCodes
import UnitOfWork.Proofs.QuietLoads
import UnitOfWork.Proofs.ReadOnlyLoads
import UnitOfWork.Proofs.RecordedRows
import UnitOfWork.Proofs.RegionItems
import UnitOfWork.Proofs.Registration
import UnitOfWork.Proofs.RekeyedEntries
import UnitOfWork.Proofs.RememberedRows
import UnitOfWork.Proofs.Renaming
import UnitOfWork.Proofs.RepeatedLoads
import UnitOfWork.Proofs.RequiredReferences
import UnitOfWork.Proofs.RowAdmission
import UnitOfWork.Proofs.RowOrder
import UnitOfWork.Proofs.SaveInvariant
import UnitOfWork.Proofs.SavedFamily
import UnitOfWork.Proofs.SessionInvariant
import UnitOfWork.Proofs.SessionRows
import UnitOfWork.Proofs.SessionSteps
import UnitOfWork.Proofs.SettledAnswers
import UnitOfWork.Proofs.SharedNaturalIds
import UnitOfWork.Proofs.SingleInserts
import UnitOfWork.Proofs.SoftLocks
import UnitOfWork.Proofs.StoredForms
import UnitOfWork.Proofs.StructuredEntries
import UnitOfWork.Proofs.SwitchedEntries
import UnitOfWork.Proofs.TenantIsolation
import UnitOfWork.Proofs.TenantRegions
import UnitOfWork.Proofs.TenantRequests
import UnitOfWork.Proofs.UndoneSaves
import UnitOfWork.Proofs.WrittenReferences
import UnitOfWork.Proofs.WrittenRows
