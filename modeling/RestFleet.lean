import RestFleet.Verification.Agent.Activation
import RestFleet.Verification.Agent.CredentialHistory
import RestFleet.Verification.Agent.CronSearch
import RestFleet.Verification.Agent.Output
import RestFleet.Verification.Agent.Poison
import RestFleet.Verification.Agent.Reporting
import RestFleet.Verification.Agent.Retries
import RestFleet.Verification.Agent.Upload
import RestFleet.Verification.AuditChain.Intact
import RestFleet.Verification.Authorization.History
import RestFleet.Verification.Backup.Counters
import RestFleet.Verification.Backup.Retry
import RestFleet.Verification.Catalog.Activation
import RestFleet.Verification.Catalog.Archival
import RestFleet.Verification.Catalog.Publication
import RestFleet.Verification.Fleet.HostStatus
import RestFleet.Verification.Fleet.Overlap
import RestFleet.Verification.RateLimit
import RestFleet.Verification.Rclone.Config
import RestFleet.Verification.Requests.Idempotence
import RestFleet.Verification.Restic.Index
import RestFleet.Verification.Restic.Listing
import RestFleet.Verification.Restic.Provision
import RestFleet.Verification.ServicePaths
import RestFleet.Verification.Session.Trace
import RestFleet.Verification.Snapshots.Freshness
